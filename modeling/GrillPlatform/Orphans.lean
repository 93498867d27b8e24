import GrillPlatform.Attempts
import GrillPlatform.RecoveryStages

/-! The runs a fresh process finds in provisioning. Recovery and the provisioning watchdog both take
them, and nothing keeps one from a run the other has taken; where the watchdog leaves a run until
its recovery is over, each is taken once. -/

namespace GrillPlatform
open Coroutine RunRepository
variable {cfg : Config}

/-- The two that take a run out of provisioning. -/
inductive Cleaner where
  | recovery | watchdog
  deriving DecidableEq

def TaskName.recovers : TaskName → Option RunId
  | .recoverOrphanedProvisioningRun r => some r
  | _ => none

def Query.requeues : Query → Option RunId
  | .requeueForRetry r _ => some r
  | _ => none

def Query.reaps (db : Db) : Query → List RunId
  | .claimProvisioningTimedOut cutoff =>
    (db.runs.rows.filter (provisioningTimedOut cutoff)).map Run.id
  | _ => []

def System.recovering (p : System cfg) (i : Nat) : Option RunId :=
  (p.taskNames[i]?).bind TaskName.recovers

/-- The process goes on, and nobody sends it a request. -/
def Internal (_ : System cfg) : Step cfg → Prop
  | .run .. => True
  | _ => False

/-- A watchdog claim takes no run whose recovery task has not ended. -/
def Spares (p : System cfg) (l : Step cfg) : Prop :=
  ∀ c ∈ p.queries l, c.2.fault = .before ∨
    ∀ k < p.tasks.length, ∀ r ∈ p.recovering k, r ∈ c.1.reaps p.world.db → p.Ended k

/-- The recovery task of the run has its repository calls answered. -/
def Served (r : RunId) (p : System cfg) : Step cfg → Prop
  | .run i e => p.recovering i = some r → ∀ c ∈ p.queries (.run i e), c.2.fault = .none
  | _ => True

/-- The cleaner that takes the run in this step: recovery puts it through `requeue_for_retry`, or
the watchdog claims it as it stood at the start. -/
def cleaner (run : Run) (p : System cfg) (l : Step cfg) : Option Cleaner :=
  match l with
  | .crash _ | .arrive _ => none
  | .run i e =>
    match p.queries (.run i e) with
    | none => none
    | some (c, e) =>
      if e.fault = .before then none
      else if c.requeues = some run.id ∧ p.recovering i = some run.id then some .recovery
      else if p.world.db.runs.get run.id = some run ∧ run.id ∈ c.reaps p.world.db then
        some .watchdog
      else none

def disposals (run : Run) (p : System cfg) (ls : List (Step cfg)) : List (Cleaner × Option Run) :=
  p.trace (fun p l q => (cleaner run p l).map (·, q.world.db.runs.get run.id)) ls

def reapedAt (t : Time) (run : Run) : Run :=
  { run with
    status := .failed, endedAt := some t, errorMessage := some "timeout: stuck in provisioning" }

/-- At most one has taken the run: nobody yet; recovery, with one attempt more, and the run was
queued or, out of attempts, is failed next; or the watchdog, and the run has stayed failed. -/
inductive Disposed (m : Int) (run : Run) : List (Cleaner × Option Run) → Run → Prop
  | waiting : Disposed m run [] run
  | requeued {now : Run} (hm : ¬ m ≤ run.provisionAttempts + 1)
      (ha : run.provisionAttempts + 1 ≤ now.provisionAttempts) :
      Disposed m run [(.recovery, some { run with
        provisionAttempts := run.provisionAttempts + 1, status := .queued })] now
  | givenUp {now : Run} (hm : m ≤ run.provisionAttempts + 1)
      (ha : now.provisionAttempts = run.provisionAttempts + 1)
      (hs : now.status = .provisioning ∨ now.status = .failed) :
      Disposed m run [(.recovery, some { run with
        provisionAttempts := run.provisionAttempts + 1 })] now
  | reaped {t : Time} : Disposed m run [(.watchdog, some (reapedAt t run))] (reapedAt t run)

/-! ## The run -/

/-- Nobody but recovery and the watchdog works on the run, and no tick is about to start it. -/
def Idle (r : RunId) (p : System cfg) (g : Nat → Stage) : Prop :=
  ∀ i t, p.tasks[i]? = some t →
    TaskName.works t.name ≠ some r ∧ ∀ cs, g i = .polling cs → r ∉ cs

def Nobody (P : Stage → Prop) (p : System cfg) (g : Nat → Stage) : Prop :=
  ∀ i < p.tasks.length, ¬ P (g i)

/-- The row of a run that was in provisioning, with what its recovery can still do. When recovery is
`served`, it has not ended before it was done. -/
inductive Life (served : Prop) (m : Int) (run : Run) (p : System cfg) (g : Nat → Stage) : Run → Prop
  | waiting (hi : Idle run.id p g) (hx : Nobody (· = .exhausted run.id) p g)
      (hd : served → Nobody (· = .through run.id) p g) : Life served m run p g run
  | reaped (t : Time) (hi : Idle run.id p g) (hp : Nobody (Stage.pending run.id) p g)
      (hx : Nobody (· = .exhausted run.id) p g) : Life served m run p g (reapedAt t run)
  | givenUp {now : Run} (hm : m ≤ run.provisionAttempts + 1)
      (ha : now.provisionAttempts = run.provisionAttempts + 1)
      (hs : now.status = .provisioning ∨ now.status = .failed) (hi : Idle run.id p g)
      (hp : Nobody (Stage.pending run.id) p g)
      (hd : served → now.status = .provisioning → Nobody (· = .through run.id) p g) :
      Life served m run p g now
  | again {now : Run} (hm : ¬ m ≤ run.provisionAttempts + 1)
      (ha : run.provisionAttempts + 1 ≤ now.provisionAttempts)
      (hp : Nobody (Stage.pending run.id) p g) : Life served m run p g now

/-- What a step does to the row, by the cleaner that makes it. -/
inductive Treated (m : Int) (run : Run) : Option Cleaner → Run → Run → Prop
  | kept {x : Run} : Treated m run none x x
  | recovered : Treated m run (some .recovery) run (retried m run)
  | reaped (t : Time) : Treated m run (some .watchdog) run (reapedAt t run)
  | closed {x y : Run} (hm : m ≤ run.provisionAttempts + 1)
      (hx : x.provisionAttempts = run.provisionAttempts + 1)
      (hy : y.provisionAttempts = run.provisionAttempts + 1)
      (hs : y.status = .provisioning ∨ y.status = .failed) : Treated m run none x y
  | later {x y : Run} (hm : ¬ m ≤ run.provisionAttempts + 1)
      (hx : run.provisionAttempts + 1 ≤ x.provisionAttempts)
      (hy : run.provisionAttempts + 1 ≤ y.provisionAttempts) : Treated m run none x y

theorem Disposed.length_le {m : Int} {run x : Run} {bs : List (Cleaner × Option Run)}
    (h : Disposed m run bs x) : bs.length ≤ 1 := by cases h <;> simp

theorem Disposed.eq_nil {m : Int} {run x : Run} {bs : List (Cleaner × Option Run)}
    (h : Disposed m run bs x) (hx : x = run) (hs : run.status = .provisioning) : bs = [] := by
  cases h with
  | waiting => rfl
  | requeued hm ha | givenUp hm ha =>
    rw [hx] at ha
    omega
  | reaped =>
    rw [← hx] at hs
    cases hs

theorem Disposed.treated {m : Int} {run x y : Run} {bs : List (Cleaner × Option Run)}
    {c : Option Cleaner} (h : Disposed m run bs x) (ht : Treated m run c x y)
    (hs : run.status = .provisioning) :
    Disposed m run (bs ++ (c.map (·, some y)).toList) y := by
  cases ht with
  | kept => simpa using h
  | recovered =>
    obtain rfl := h.eq_nil rfl hs
    simp only [retried]
    split
    · exact .givenUp ‹_› rfl (.inl hs)
    · exact .requeued ‹_› (Nat.le_refl _)
  | reaped t =>
    obtain rfl := h.eq_nil rfl hs
    exact .reaped
  | closed hm hx hy hs' =>
    cases h with
    | waiting => omega
    | requeued hm' => exact absurd hm hm'
    | givenUp => simpa using Disposed.givenUp hm hy hs'
    | reaped => simp [reapedAt] at hx
  | later hm hx hy =>
    cases h with
    | waiting => omega
    | requeued => simpa using Disposed.requeued hm hy
    | givenUp hm' => exact absurd hm' hm
    | reaped => exact absurd hx (Nat.not_succ_le_self _)

section
variable {C : System cfg → Step cfg → Prop} {w : World} {r : RunId} {p : System cfg}
  {g : Nat → Stage} {i : Nat} {n : (orchestrator cfg).Name} {op : sig.Op}
  {next : sig.Resp op → Prog sig Exc Unit} {e : (orchestrator cfg).Env}

theorem mem_reaps {db : Db} {c : Query} {r : RunId} : r ∈ c.reaps db ↔
    ∃ cutoff x, c = .claimProvisioningTimedOut cutoff ∧ db.runs.get r = some x ∧
      provisioningTimedOut cutoff x = true := by
  constructor
  · intro h
    cases c with
    | claimProvisioningTimedOut cutoff =>
      obtain ⟨x, hx, rfl⟩ := List.mem_map.1 h
      obtain ⟨hm, hc⟩ := List.mem_filter.1 hx
      exact ⟨cutoff, x, rfl, Table.get_eq_some.2 ⟨hm, rfl⟩, hc⟩
    | _ => cases h
  · rintro ⟨cutoff, x, rfl, hx, hc⟩
    obtain ⟨hm, rfl⟩ := Table.get_eq_some.1 hx
    exact List.mem_map_of_mem (List.mem_filter.2 ⟨hm, hc⟩)

theorem recovering_of_get {t : Coroutine.Task (orchestrator cfg)} (h : p.tasks[i]? = some t) :
    p.recovering i = TaskName.recovers t.name := by
  rw [System.recovering, System.taskNames, List.getElem?_map, h]
  rfl

theorem Nobody.pending_after (h : Nobody (Stage.pending r) p g)
    (ht : p.tasks[i]? = some ⟨n, .call op next⟩) (ha : (g i).allows op) :
    Nobody (Stage.pending r) (p.after i n op next e) (staged p g i n op e) := by
  intro k hk hp
  have hi := Pool.lt_of_getElem? ht
  rcases staged_cases (g := g) ht hk with ⟨rfl, hg⟩ | ⟨-, hlt, hg⟩ | ⟨rfl, m, rfl, hg⟩ <;>
    rw [hg] at hp
  · exact h k hi (Stage.pending_of_after hp)
  · exact h k hlt hp
  · exact h i hi (Stage.pending_of_creates ha hp)

theorem Nobody.behind_after {δ : Stage} (h : Nobody (· = δ) p g) (hδ : δ.holds r)
    (hp : ¬ δ.pending r) (ht : p.tasks[i]? = some ⟨n, .call op next⟩)
    (hself : (g i).after op (answer p i n op e) = δ → g i = δ) :
    Nobody (· = δ) (p.after i n op next e) (staged p g i n op e) := by
  intro k hk hs
  have hi := Pool.lt_of_getElem? ht
  rcases staged_cases (g := g) ht hk with ⟨rfl, hg⟩ | ⟨-, hlt, hg⟩ | ⟨rfl, m, -, hg⟩ <;>
    rw [hg] at hs
  · exact h k hi (hself hs)
  · exact h k hlt hs
  · subst hs
    cases m <;> first | exact hδ.elim | exact hp hδ

theorem seized_of_creates {γ : Stage} {m : TaskName} (h : γ.creates m) (hm : m.works = some r) :
    ∃ cs, γ = .polling cs ∧ r ∈ cs := by
  unfold Stage.creates at h
  split at h
  · cases hm
  · cases hm
    exact ⟨_, rfl, h⟩
  · cases hm
    exact ⟨_, rfl, h⟩
  all_goals first | cases hm | exact h.elim

theorem Idle.after (h : Idle r p g) (ht : p.tasks[i]? = some ⟨n, .call op next⟩)
    (ha : (g i).allows op) (hrow : ∀ run, p.world.db.runs.get r = some run →
      run.status = .provisioning ∨ run.status = .failed) :
    Idle r (p.after i n op next e) (staged p g i n op e) := by
  have hi := Pool.lt_of_getElem? ht
  intro j t hj
  rcases Pool.getElem?_after hj with ⟨rfl, rfl⟩ | ⟨hne, hj⟩ | ⟨rfl, m, hm, rfl⟩
  · obtain ⟨hw, hcs⟩ := h j _ ht
    refine ⟨hw, fun cs hc hr => ?_⟩
    rw [staged, Pool.ghost_self] at hc
    obtain ⟨cs₀, hg, hmem⟩ := polling_of_after hc
    rcases hmem r hr with hr | hr
    · exact hcs cs₀ hg hr
    · cases op with
      | db q =>
        obtain ⟨run, hrun, hs⟩ := seized_status (q := q) hr
        rcases hrow run hrun with hs' | hs' <;> obtain hs | hs := hs <;> cases hs'.symm.trans hs
      | _ => cases hr
  · rw [staged, Pool.ghost_other hne (Nat.ne_of_lt (Pool.lt_of_getElem? hj))]
    exact h j t hj
  · obtain rfl := created_eq hm
    constructor
    · intro hw
      obtain ⟨cs, hg, hr⟩ := seized_of_creates ha hw
      exact (h i _ ht).2 cs hg hr
    · intro cs hc hr
      rw [staged, hm, Pool.ghost_new hi] at hc
      cases m <;> cases hc
      cases hr

theorem cleaner_run {run : Run} {c : Query} {next : sig.Resp (.db c) → Prog sig Exc Unit}
    (ht : p.tasks[i]? = some ⟨n, .call (S := sig) (.db c) next⟩) : cleaner run p (.run i e) =
      if e.fault = .before then none
      else if c.requeues = some run.id ∧ TaskName.recovers n = some run.id then some .recovery
      else if p.world.db.runs.get run.id = some run ∧ run.id ∈ c.reaps p.world.db then
        some .watchdog
      else none := by
  simp only [cleaner, System.queries_run ht, recovering_of_get ht]

theorem cleaner_other {run : Run} (ht : p.tasks[i]? = some ⟨n, .call op next⟩)
    (hop : ∀ c, (op : Op) ≠ .db c) : cleaner run p (.run i e) = none := by
  simp only [cleaner, System.queries_run ht]
  cases op <;> first | rfl | exact absurd rfl (hop _)

theorem cleaning_of_requeue {c : Query} {next : sig.Resp (.db c) → Prog sig Exc Unit}
    (hJ : Recovering C w r p g) (ht : p.tasks[i]? = some ⟨n, .call (S := sig) (.db c) next⟩)
    (ha : (g i).allows (.db c)) (hc : c.requeues = some r) (hn : TaskName.recovers n = some r) :
    g i = .cleaning r := by
  have hs := (hJ.named i _ ht).1
  cases c with
  | requeueForRetry r' m =>
    cases hc
    rcases ha with h | h
    · exact h
    · rw [h] at hs
      cases n <;> cases hn
      simp [TaskName.stages] at hs
  | _ => cases hc

theorem cleaner_none {run : Run} (hJ : Recovering C w run.id p g)
    (ht : p.tasks[i]? = some ⟨n, .call op next⟩) (ha : (g i).allows op)
    (hp : Nobody (Stage.pending run.id) p g) (hrow : p.world.db.runs.get run.id ≠ some run) :
    cleaner run p (.run i e) = none := by
  cases op with
  | db c =>
    have hreq : ¬ (c.requeues = some run.id ∧ TaskName.recovers n = some run.id) := by
      intro h
      refine hp i (Pool.lt_of_getElem? ht) ?_
      rw [cleaning_of_requeue hJ ht ha h.1 h.2]
      exact rfl
    have hreap : ¬ (p.world.db.runs.get run.id = some run ∧ run.id ∈ c.reaps p.world.db) :=
      fun h => hrow h.1
    rw [cleaner_run ht, if_neg hreq, if_neg hreap, ite_self]
  | _ => exact cleaner_other ht fun c h => by cases h

theorem Idle.write {now : Time} {c : Query}
    {next : sig.Resp (.db c) → Prog sig Exc Unit} {x y : Run}
    (h : Idle x.id p g) (hJ : Recovering C w x.id p g)
    (ht : p.tasks[i]? = some ⟨n, .call (S := sig) (.db c) next⟩) (ha : (g i).allows (.db c))
    (hw : RowWrite now c x y) (hx : x.status = .provisioning ∨ x.status = .failed) :
    (∃ cutoff, c = .claimProvisioningTimedOut cutoff ∧ provisioningTimedOut cutoff x = true ∧
      y = reapedAt now x) ∨
    (g i = .cleaning x.id ∧ ∃ m, c = .requeueForRetry x.id m) ∨
    (g i = .exhausted x.id ∧ (∃ t msg, c = .setFailed x.id t msg) ∧ y.status = .failed ∧
      y.provisionAttempts = x.provisionAttempts) := by
  have hmay := System.may_of_call hJ.reach ht
  have hs := (hJ.named i _ ht).1
  have hn := (h i _ ht).1
  -- whoever else could write works on no run, or on another
  cases hw with
  | claim hq => simp [hq] at hx
  | phase hr => simp [hr] at hx
  | reapRunning hc => simp [(of_decide_eq_true hc).1] at hx
  | reapProvisioning hc => exact .inl ⟨_, rfl, hc, rfl⟩
  | complete | fail | logs =>
    cases n with
    | request => exact hs.elim
    | _ => exact hmay.elim
  | running =>
    cases n with
    | request => exact hs.elim
    | handleQueuedRun =>
      obtain rfl := hmay
      exact absurd rfl hn
    | _ => exact hmay.elim
  | requeue | exhausted =>
    cases n with
    | request => exact hs.elim
    | handleQueuedRun =>
      obtain ⟨rfl, -⟩ := hmay
      exact absurd rfl hn
    | recoverOrphanedProvisioningRun =>
      obtain ⟨rfl, -⟩ := hmay
      exact .inr (.inl ⟨cleaning_of_requeue hJ ht ha rfl rfl, _, rfl⟩)
    | _ => exact hmay.elim
  | failed =>
    cases n with
    | request => exact hs.elim
    | handleQueuedRun | abortStuckRunning =>
      obtain rfl := hmay
      exact absurd rfl hn
    | recoverOrphanedProvisioningRun =>
      refine .inr (.inr ⟨ha.resolve_right fun ho => ?_, ⟨_, _, rfl⟩, rfl, rfl⟩)
      rw [ho] at hs
      simp [TaskName.stages] at hs
    | _ => exact hmay.elim

theorem row_reaped {x : Run} {c : Query} {next : sig.Resp (.db c) → Prog sig Exc Unit}
    (hx : p.world.db.runs.get r = some x) (hr : r ∈ c.reaps p.world.db) (hf : e.fault ≠ .before) :
    (p.after (M := orchestrator cfg) i n (.db c) next e).world.db.runs.get r =
      some (reapedAt (p.world.clock + e.elapsed) x) := by
  obtain ⟨cutoff, x', rfl, hx', hc⟩ := mem_reaps.1 hr
  cases hx'.symm.trans hx
  have hdb : (p.after (M := orchestrator cfg) i n
    (.db (.claimProvisioningTimedOut cutoff)) next e).world.db =
      ((Query.claimProvisioningTimedOut cutoff).run e (p.world.clock + e.elapsed) p.world.db).2 :=
      rfl
  rw [hdb, Query.run_commits hf rfl, Db.get_modifyRuns, hx]
  simp [hc, reapedAt]

def Still (r : RunId) (γ : Stage) (op : Op) : Prop :=
  ¬ (γ = .cleaning r ∧ ∃ r' m, op = .db (.requeueForRetry r' m)) ∧
  ¬ (γ = .exhausted r ∧ ∃ r' t msg, op = .db (.setFailed r' t msg))

theorem Still.behind {γ δ : Stage} {op : Op} {a : op.Resp} (h : Still r γ op) (hδ : δ.holds r)
    (hp : ¬ δ.pending r) (ha : γ.after op a = δ) : γ = δ := by
  subst ha
  rcases Stage.moved_of_after hδ hp with hs | hs | hs
  · exact hs.symm
  · exact absurd hs h.1
  · exact absurd hs h.2

theorem Life.keep {served : Prop} {m : Int} {run x : Run} (h : Life served m run p g x)
    (hx : p.world.db.runs.get run.id = some x) (hs : run.status = .provisioning)
    (ht : p.tasks[i]? = some ⟨n, .call op next⟩) (ha : (g i).allows op)
    (hq : Still run.id (g i) op) :
    Life served m run (p.after i n op next e) (staged p g i n op e) x := by
  have hexh : Nobody (· = .exhausted run.id) p g →
      Nobody (· = .exhausted run.id) (p.after i n op next e) (staged p g i n op e) :=
    fun h => h.behind_after (r := run.id) rfl id ht (hq.behind rfl id)
  have hthrough : Nobody (· = .through run.id) p g →
      Nobody (· = .through run.id) (p.after i n op next e) (staged p g i n op e) :=
    fun h => h.behind_after (r := run.id) rfl id ht (hq.behind rfl id)
  cases h with
  | waiting hi hxx hd =>
    refine .waiting (hi.after ht ha fun run' hr => ?_) (hexh hxx) fun h => hthrough (hd h)
    cases hr.symm.trans hx
    exact .inl hs
  | reaped t hi hp hxx =>
    refine .reaped t (hi.after ht ha fun run' hr => ?_) (hp.pending_after ht ha) (hexh hxx)
    cases hr.symm.trans hx
    exact .inr rfl
  | givenUp hm hat hst hi hp hd =>
    refine .givenUp hm hat hst (hi.after ht ha fun run' hr => ?_) (hp.pending_after ht ha)
      fun h h' => hthrough (hd h h')
    cases hr.symm.trans hx
    exact hst
  | again hm hat hp => exact .again hm hat (hp.pending_after ht ha)

theorem Recovering.alone (hJ : Recovering C w r p g) (hi : i < p.tasks.length)
    (hg : g i = .cleaning r) {k : Nat} (hk : k < p.tasks.length) (hne : k ≠ i) :
    ¬ (g k).pending r ∧ ¬ (g k).holds r := by
  have hholds : ¬ (g k).holds r := fun h => hne (hJ.unique k hk i hi h (by rw [hg]; exact rfl))
  refine ⟨fun h => ?_, hholds⟩
  cases hgk : g k with
  | boot => cases hg.symm.trans (hJ.other_of_releases hi hgk hk hne.symm)
  | spawning | cleaning =>
    rw [hgk] at h hholds
    exact hholds h
  | _ =>
    rw [hgk] at h
    exact h

section
variable {m : Int} {next : sig.Resp (.db (.requeueForRetry r m)) → Prog sig Exc Unit}

theorem Recovering.pending_requeued (hJ : Recovering C w r p g)
    (ht : p.tasks[i]? = some ⟨n, .call (S := sig) (.db (.requeueForRetry r m)) next⟩)
    (hg : g i = .cleaning r) : Nobody (Stage.pending r)
      (p.after i n (.db (.requeueForRetry r m)) next e)
      (staged p g i n (.db (.requeueForRetry r m)) e) := by
  intro k hk hp
  rcases staged_cases (g := g) ht hk with ⟨rfl, hgk⟩ | ⟨hne, hlt, hgk⟩ | ⟨-, m, hm, -⟩
  · rw [hgk, hg] at hp
    rcases closed_of_requeue (r := r)
      (answer p k n (.db (.requeueForRetry r m)) e) with ⟨h, -⟩ | ⟨h, -⟩ <;>
    · rw [h] at hp
      exact hp
  · exact (hJ.alone (Pool.lt_of_getElem? ht) hg hlt hne).1 (hgk ▸ hp)
  · cases hm

theorem Recovering.through_exhausted {run : Run} (hJ : Recovering C w r p g)
    (hrun : p.world.db.runs.get r = some run)
    (ht : p.tasks[i]? = some ⟨n, .call (S := sig) (.db (.requeueForRetry r m)) next⟩)
    (hg : g i = .cleaning r) (hm : m ≤ run.provisionAttempts + 1) (hf : e.fault = .none) :
    Nobody (· = .through r) (p.after i n (.db (.requeueForRetry r m)) next e)
      (staged p g i n (.db (.requeueForRetry r m)) e) := by
  intro k hk hthrough
  rcases staged_cases (g := g) ht hk with ⟨rfl, hgk⟩ | ⟨hne, hlt, hgk⟩ | ⟨-, m, hop, -⟩
  · rw [hgk, hg] at hthrough
    rcases closed_of_requeue (r := r) (answer p k n (.db (.requeueForRetry r m)) e) with
      ⟨hexh, -⟩ | ⟨-, hok⟩
    · cases hexh.symm.trans hthrough
    -- the answer tells that no attempt is left
    · obtain ⟨a, db', htx, -, hnone⟩ := requeueForRetry_of_get (m := m) hrun
      have hans : ((Query.requeueForRetry r m).run e (p.world.clock + e.elapsed) p.world.db).1 =
          .ok a := by simp only [Query.run, Query.tx, htx, Env.guard, hf]
      exact hok (hans.trans (congrArg _ (hnone.2 hm)))
  · exact (hJ.alone (Pool.lt_of_getElem? ht) hg hlt hne).2 (by rw [← hgk, hthrough]; exact rfl)
  · cases hop

end

theorem Life.requeue {run : Run} {r' : RunId} {m : Int}
    {next : sig.Resp (.db (.requeueForRetry r' m)) → Prog sig Exc Unit}
    (hJ : Recovering C w run.id p g) (hidle : Idle run.id p g)
    (hx : Nobody (· = .exhausted run.id) p g) (hrun : p.world.db.runs.get run.id = some run)
    (hs : run.status = .provisioning)
    (ht : p.tasks[i]? = some ⟨n, .call (S := sig) (.db (.requeueForRetry r' m)) next⟩)
    (ha : (g i).allows (.db (.requeueForRetry r' m))) (hg : g i = .cleaning run.id)
    (hC : C p (.run i e)) : ∃ y,
    (p.after i n (.db (.requeueForRetry r' m)) next e).world.db.runs.get run.id = some y ∧
    Life (∀ p l, C p l → Served run.id p l) cfg.provisionMaxAttempts run
      (p.after i n (.db (.requeueForRetry r' m)) next e)
      (staged p g i n (.db (.requeueForRetry r' m)) e) y ∧
    Treated cfg.provisionMaxAttempts run (cleaner run p (.run i e)) run y := by
  obtain rfl : r' = run.id := by
    rw [hg] at ha
    rcases ha with h | h <;> cases h
    rfl
  obtain rfl : m = cfg.provisionMaxAttempts :=
    System.regular_of_queries hJ.reach (System.queries_run (e := e) ht)
  have hn := name_of_cleaning (hg ▸ (hJ.named i _ ht).1)
  have hrec : TaskName.recovers n = some run.id := by rw [show n = _ from hn]; rfl
  have hidle' := hidle.after (e := e) ht ha fun run' hr => by
    cases hr.symm.trans hrun
    exact .inl hs
  have hserved : (∀ p l, C p l → Served run.id p l) → e.fault = .none := fun h =>
    h p _ hC ((recovering_of_get ht).trans hrec) _ (System.queries_run ht)
  have hdb :
      (p.after i n (.db (.requeueForRetry run.id cfg.provisionMaxAttempts)) next e).world.db =
      ((Query.requeueForRetry run.id cfg.provisionMaxAttempts).run e (p.world.clock + e.elapsed)
      p.world.db).2 := rfl
  obtain ⟨a, db', htx, hrow, -⟩ :=
    requeueForRetry_of_get (m := cfg.provisionMaxAttempts) hrun
  by_cases hf : e.fault = .before
  · refine ⟨run, by rw [hdb, Query.run_before hf, hrun], .waiting hidle' ?_ fun h => ?_, ?_⟩
    · refine hx.behind_after (r := run.id) rfl id ht fun h => ?_
      rw [hg] at h
      obtain ⟨-, hok⟩ | ⟨hthrough, -⟩ := closed_of_requeue (r := run.id)
        (answer p i n (.db (.requeueForRetry run.id cfg.provisionMaxAttempts)) e)
      · exact absurd hf (Query.fault_of_ok (q := .requeueForRetry _ _) hok)
      · cases hthrough.symm.trans h
    · cases hf.symm.trans (hserved h)
    · rw [cleaner_run ht, if_pos hf]
      exact .kept
  · have hcleaner : cleaner run p (.run i e) = some .recovery := by
      rw [cleaner_run ht, if_neg hf, if_pos ⟨rfl, hrec⟩]
    refine ⟨retried cfg.provisionMaxAttempts run,
      by rw [hdb, Query.run_commits (q := .requeueForRetry _ _) hf htx, hrow], ?_,
      by rw [hcleaner]; exact .recovered⟩
    have hpending := hJ.pending_requeued (e := e) ht hg
    by_cases hm : cfg.provisionMaxAttempts ≤ run.provisionAttempts + 1
    · have hretried : retried cfg.provisionMaxAttempts run =
          { run with provisionAttempts := run.provisionAttempts + 1 } := if_pos hm
      rw [hretried]
      exact .givenUp hm rfl (.inl hs) hidle' hpending fun h _ =>
        hJ.through_exhausted hrun ht hg hm (hserved h)
    · have hretried : retried cfg.provisionMaxAttempts run =
          { run with provisionAttempts := run.provisionAttempts + 1, status := .queued } :=
          if_neg hm
      rw [hretried]
      exact .again hm (Nat.le_refl _) hpending

/-- A watchdog that spares the runs under recovery claims only those nobody will requeue. -/
theorem nobody_pending {c : Query} {next : sig.Resp (.db c) → Prog sig Exc Unit}
    (hJ : Recovering C w r p g) (hT : Pool.TrackedTo recovery (fun γ _ => γ.closed) p g)
    (hspares : Spares p (.run i e))
    (ht : p.tasks[i]? = some ⟨n, .call (S := sig) (.db c) next⟩) (ha : (g i).allows (.db c))
    (hr : r ∈ c.reaps p.world.db) (hf : e.fault ≠ .before) : Nobody (Stage.pending r) p g := by
  intro k hk hp
  have hi := Pool.lt_of_getElem? ht
  obtain ⟨cutoff, x, rfl, hx, hc⟩ := mem_reaps.1 hr
  obtain ⟨cs, hpoll⟩ := ha
  -- a recovery task that could still requeue has been spared
  cases hg : g k with
  | boot =>
    have hik : i ≠ k := by
      rintro rfl
      cases hg.symm.trans hpoll
    cases (hJ.other_of_releases hi hg hk hik).symm.trans hpoll
  | spawning rs => exact (hJ.spawning k hk rs hg).2 i hi cs hpoll
  | cleaning r' =>
    rw [hg] at hp
    obtain rfl : r' = r := hp
    have htk := List.getElem?_eq_getElem hk
    have hn := name_of_cleaning (hg ▸ (hJ.named k _ htk).1)
    have hrec : p.recovering k = some r' := by
      rw [recovering_of_get htk, hn]
      rfl
    have hend := (hspares _ (System.queries_run ht)).resolve_left hf k hk r' hrec hr
    obtain ⟨_, hclosed⟩ := hT.ended hend
    rw [hg] at hclosed
    exact hclosed
  | _ =>
    rw [hg] at hp
    exact hp

theorem name_of_exhausted {n : TaskName} (h : n.stages (.exhausted r)) :
    n = .recoverOrphanedProvisioningRun r := by
  cases n <;> simp [TaskName.stages] at h ⊢
  exact h.symm

theorem row_failed {x : Run} {k : Nat} {r' : RunId} {t : Time} {msg : Option String}
    {next : sig.Resp (.db (.setFailed r' t msg)) → Prog sig Exc Unit}
    (ht : p.tasks[i]? = some ⟨n, .call (S := sig) (.db (.setFailed r' t msg)) next⟩)
    (hx : p.world.db.runs.get r = some x) (hk : x.provisionAttempts = k)
    (hs : x.status = .provisioning ∨ x.status = .failed) (hg : g i = .exhausted r)
    (ha : (g i).allows (.db (.setFailed r' t msg))) : ∃ y,
    (p.after i n (.db (.setFailed r' t msg)) next e).world.db.runs.get r = some y ∧
    y.provisionAttempts = k ∧ (e.fault ≠ .before → y.status = .failed) ∧
    (y.status = .provisioning ∨ y.status = .failed) := by
  obtain rfl : r' = r := by
    rw [hg] at ha
    rcases ha with h | h <;> cases h
    rfl
  obtain ⟨a, db', htx, hdb, -⟩ := setFailed_of_get t msg hx
  have hfail : e.fault ≠ .before →
      (p.after i n (.db (.setFailed r' t msg)) next e).world.db.status r' = some .failed :=
      fun hf => by
    rw [← hdb]
    exact congrArg (Db.status · r') (Query.run_commits (q := .setFailed r' t msg) hf htx)
  rcases row_after p i e n (.db (.setFailed r' t msg)) next hx with
    hrow | ⟨c, y, hc, hf, hrow, hw⟩
  · exact ⟨x, hrow, hk, fun hf => Option.some.inj
      ((Db.status_of_get hrow).symm.trans (hfail hf)), hs⟩
  · cases hc
    cases hw
    exact ⟨_, hrow, hk, fun _ => rfl, .inr rfl⟩

/-- What a step makes of a run that recovery has found. -/
def Life.Goes (C : System cfg → Step cfg → Prop) (run x : Run) (q : System cfg) (g : Nat → Stage)
    (by_ : Option Cleaner) : Prop :=
  ∃ y, q.world.db.runs.get run.id = some y ∧
    Life (∀ p l, C p l → Served run.id p l) cfg.provisionMaxAttempts run q g y ∧
    Treated cfg.provisionMaxAttempts run by_ x y

theorem Life.waiting_after {run : Run} (hJ : Recovering C w run.id p g)
    (hT : Pool.TrackedTo recovery (fun γ _ => γ.closed) p g) (hidle : Idle run.id p g)
    (hxx : Nobody (· = .exhausted run.id) p g)
    (hd : (∀ p l, C p l → Served run.id p l) → Nobody (· = .through run.id) p g)
    (hx : p.world.db.runs.get run.id = some run) (hs : run.status = .provisioning)
    (ht : p.tasks[i]? = some ⟨n, .call op next⟩) (ha : (g i).allows op) (hC : C p (.run i e))
    (hspares : Spares p (.run i e)) : Life.Goes C run run (p.after i n op next e)
      (staged p g i n op e) (cleaner run p (.run i e)) := by
  have hi := Pool.lt_of_getElem? ht
  -- recovery takes it
  by_cases hq : g i = .cleaning run.id ∧ ∃ r' m, (op : Op) = .db (.requeueForRetry r' m)
  · obtain ⟨hg, r', m, rfl⟩ := hq
    exact Life.requeue hJ hidle hxx hx hs ht ha hg hC
  have hstill : Still run.id (g i) op := ⟨hq, fun h => hxx i hi h.1⟩
  -- the watchdog takes it
  by_cases hreap : ∃ c, (op : Op) = .db c ∧ e.fault ≠ .before ∧ run.id ∈ c.reaps p.world.db
  · obtain ⟨c, rfl, hf, hr⟩ := hreap
    have hreq : ¬ (c.requeues = some run.id ∧ TaskName.recovers n = some run.id) := by
      obtain ⟨cutoff, -, rfl, -⟩ := mem_reaps.1 hr
      rintro ⟨h, -⟩
      cases h
    have hpend := nobody_pending hJ hT hspares ht ha hr hf
    refine ⟨_, row_reaped hx hr hf, .reaped _ ?_ (hpend.pending_after ht ha) ?_, ?_⟩
    · exact hidle.after ht ha fun run' hr => by
        cases hr.symm.trans hx
        exact .inl hs
    · exact hxx.behind_after (r := run.id) rfl id ht (hstill.behind rfl id)
    · rw [cleaner_run ht, if_neg hf, if_neg hreq, if_pos ⟨hx, hr⟩]
      exact .reaped _
  rcases row_after p i e n op next hx with hrow | ⟨c, y, rfl, hf, hrow, hw⟩
  · refine ⟨run, hrow, Life.keep (.waiting hidle hxx hd) hx hs ht ha hstill, ?_⟩
    have hnone : cleaner run p (.run i e) = none := by
      cases op with
      | db c =>
        rw [cleaner_run ht]
        split
        · rfl
        · rename_i hf
          rw [if_neg, if_neg]
          · exact fun h => hreap ⟨c, rfl, hf, h.2⟩
          · refine fun h => hq ⟨cleaning_of_requeue hJ ht ha h.1 h.2, ?_⟩
            cases c <;> cases h.1
            exact ⟨_, _, rfl⟩
      | _ => exact cleaner_other ht fun c h => by cases h
    rw [hnone]
    exact .kept
  · rcases hidle.write hJ ht ha hw (.inl hs) with ⟨cutoff, rfl, hc, rfl⟩ | ⟨hg, m, rfl⟩ | ⟨hg, -⟩
    · exact absurd ⟨_, rfl, hf, mem_reaps.2 ⟨cutoff, run, rfl, hx, hc⟩⟩ hreap
    · exact absurd ⟨hg, _, _, rfl⟩ hq
    · exact absurd hg (hxx i hi)

theorem Life.reaped_after {run : Run} {t : Time} (hJ : Recovering C w run.id p g)
    (hidle : Idle run.id p g) (hp : Nobody (Stage.pending run.id) p g)
    (hxx : Nobody (· = .exhausted run.id) p g)
    (hx : p.world.db.runs.get run.id = some (reapedAt t run)) (hs : run.status = .provisioning)
    (ht : p.tasks[i]? = some ⟨n, .call op next⟩) (ha : (g i).allows op) :
    Life.Goes C run (reapedAt t run) (p.after i n op next e) (staged p g i n op e)
      (cleaner run p (.run i e)) := by
  have hi := Pool.lt_of_getElem? ht
  have hne : p.world.db.runs.get run.id ≠ some run := by
    rw [hx]
    intro h
    rw [← Option.some.inj h] at hs
    cases hs
  have hstill : Still run.id (g i) op :=
    ⟨fun h => hp i hi (by rw [h.1]; exact rfl), fun h => hxx i hi h.1⟩
  rw [cleaner_none hJ ht ha hp hne]
  rcases row_after p i e n op next hx with hrow | ⟨c, y, rfl, hf, hrow, hw⟩
  · exact ⟨_, hrow, Life.keep (.reaped t hidle hp hxx) hx hs ht ha hstill, .kept⟩
  · rcases Idle.write (x := reapedAt t run) hidle hJ ht ha hw (.inr rfl) with
      ⟨cutoff, rfl, hc, rfl⟩ | ⟨hg, m, rfl⟩ | ⟨hg, -⟩
    · cases (of_decide_eq_true hc).1
    · exact absurd (by rw [hg]; exact rfl) (hp i hi)
    · exact absurd hg (hxx i hi)

theorem Life.givenUp_after {run x : Run} (hJ : Recovering C w run.id p g)
    (hm : cfg.provisionMaxAttempts ≤ run.provisionAttempts + 1)
    (hat : x.provisionAttempts = run.provisionAttempts + 1)
    (hst : x.status = .provisioning ∨ x.status = .failed) (hidle : Idle run.id p g)
    (hp : Nobody (Stage.pending run.id) p g)
    (hd : (∀ p l, C p l → Served run.id p l) → x.status = .provisioning →
      Nobody (· = .through run.id) p g)
    (hx : p.world.db.runs.get run.id = some x) (hs : run.status = .provisioning)
    (ht : p.tasks[i]? = some ⟨n, .call op next⟩) (ha : (g i).allows op) (hC : C p (.run i e)) :
    Life.Goes C run x (p.after i n op next e) (staged p g i n op e) (cleaner run p (.run i e)) := by
  have hi := Pool.lt_of_getElem? ht
  have hne : p.world.db.runs.get run.id ≠ some run := by
    rw [hx]
    intro h
    rw [Option.some.inj h] at hat
    omega
  have hclean : ¬ g i = .cleaning run.id := fun h => hp i hi (by rw [h]; exact rfl)
  have hidle' := hidle.after (e := e) ht ha fun run' hr => by
    cases hr.symm.trans hx
    exact hst
  rw [cleaner_none hJ ht ha hp hne]
  by_cases hq : Still run.id (g i) op
  · rcases row_after p i e n op next hx with hrow | ⟨c, y, rfl, hf, hrow, hw⟩
    · exact ⟨x, hrow, (Life.givenUp hm hat hst hidle hp hd).keep hx hs ht ha hq, .kept⟩
    · have hid := Table.key_of_get hx
      rcases Idle.write (hid ▸ hidle) (hid ▸ hJ) ht ha hw hst with
        ⟨cutoff, rfl, hc, rfl⟩ | ⟨hg, -⟩ | ⟨hg, ⟨t, msg, rfl⟩, -⟩
      · exact ⟨_, hrow, .givenUp hm hat (.inr rfl) hidle' (hp.pending_after ht ha)
          fun _ h => (by cases h), .closed hm hat hat (.inr rfl)⟩
      · exact absurd (hid ▸ hg) hclean
      · exact absurd ⟨hid ▸ hg, _, _, _, rfl⟩ hq.2
  · -- the recovery task fails the run
    obtain ⟨hg, r', t, msg, rfl⟩ := not_not.1 fun h => hq ⟨fun h' => hclean h'.1, h⟩
    obtain ⟨y, hrow, hy, hfail, hsy⟩ := row_failed ht hx hat hst hg ha
    refine ⟨y, hrow, .givenUp hm hy hsy hidle' (hp.pending_after ht ha) fun h hprov => ?_,
      .closed hm hat hy hsy⟩
    have hn := name_of_exhausted (hg ▸ (hJ.named i _ ht).1)
    have hrec : p.recovering i = some run.id := by
      rw [recovering_of_get ht, show n = _ from hn]
      rfl
    have hf := h p _ hC hrec _ (System.queries_run ht)
    have hfault : e.fault ≠ .before := fun h => by cases (show e.fault = _ from hf).symm.trans h
    cases hprov.symm.trans (hfail hfault)

theorem Life.again_after {run x : Run} (hJ : Recovering C w run.id p g)
    (hm : ¬ cfg.provisionMaxAttempts ≤ run.provisionAttempts + 1)
    (hat : run.provisionAttempts + 1 ≤ x.provisionAttempts)
    (hp : Nobody (Stage.pending run.id) p g) (hx : p.world.db.runs.get run.id = some x)
    (ht : p.tasks[i]? = some ⟨n, .call op next⟩) (ha : (g i).allows op) :
    Life.Goes C run x (p.after i n op next e) (staged p g i n op e) (cleaner run p (.run i e)) := by
  have hne : p.world.db.runs.get run.id ≠ some run := by
    rw [hx]
    intro h
    rw [Option.some.inj h] at hat
    omega
  rw [cleaner_none hJ ht ha hp hne]
  have hp' := hp.pending_after (e := e) ht ha
  rcases row_after p i e n op next hx with hrow | ⟨c, y, rfl, hf, hrow, hw⟩
  · exact ⟨x, hrow, .again hm hat hp', .kept⟩
  · have hy := hat.trans hw.attempts_le
    exact ⟨y, hrow, .again hm hy hp', .later hm hat hy⟩

/-- One step: the row is as before, or one of the cleaners has taken the run, or recovery and the
watchdog go on with a run that was taken. -/
theorem Life.after {run x : Run} (hJ : Recovering C w run.id p g)
    (hT : Pool.TrackedTo recovery (fun γ _ => γ.closed) p g)
    (hL : Life (∀ p l, C p l → Served run.id p l) cfg.provisionMaxAttempts run p g x)
    (hx : p.world.db.runs.get run.id = some x) (hs : run.status = .provisioning)
    (ht : p.tasks[i]? = some ⟨n, .call op next⟩) (ha : (g i).allows op) (hC : C p (.run i e))
    (hspares : Spares p (.run i e)) :
    Life.Goes C run x (p.after i n op next e) (staged p g i n op e) (cleaner run p (.run i e)) := by
  cases hL with
  | waiting hidle hxx hd => exact waiting_after hJ hT hidle hxx hd hx hs ht ha hC hspares
  | reaped t hidle hp hxx => exact reaped_after hJ hidle hp hxx hx hs ht ha
  | givenUp hm hat hst hidle hp hd => exact givenUp_after hJ hm hat hst hidle hp hd hx hs ht ha hC
  | again hm hat hp => exact again_after hJ hm hat hp hx ht ha

end

theorem recovering_boot (cfg : Config) (C : System cfg → Step cfg → Prop) (w : World) (r : RunId) :
    Recovering C w r (System.start cfg w) fun _ => .boot where
  reach := .init
  named i t h := by
    obtain ⟨rfl, rfl⟩ := Pool.getElem?_boot h
    exact ⟨.inl rfl, fun _ => rfl⟩
  booting i hi _ := by
    refine ⟨rfl, fun j t hj hne => absurd ?_ hne⟩
    obtain ⟨rfl, -⟩ := Pool.getElem?_boot hj
    exact (Nat.lt_one_iff.1 hi).symm
  spawning _ _ _ h := by cases h
  found _ _ h := h.elim
  unique _ _ _ _ h := h.elim

section
variable {C : System cfg → Step cfg → Prop} {w : World} {p : System cfg} {r : RunId}

theorem recovering_of_reach (hC : ∀ p l, C p l → Internal p l ∧ Spares p l)
    (h : Pool.Reach C (System.start cfg w) p) (r : RunId) :
    ∃ g, Pool.TrackedTo recovery (fun γ _ => γ.closed) p g ∧ Recovering C w r p g ∧
      ∀ run, w.db.runs.get r = some run → run.status = .provisioning →
        ∃ x, p.world.db.runs.get r = some x ∧
          Life (∀ p l, C p l → Served r p l) cfg.provisionMaxAttempts run p g x := by
  refine h.trackedTo (body_recovery cfg) (fun p g => Recovering C w r p g ∧
    ∀ run, w.db.runs.get r = some run → run.status = .provisioning →
      ∃ x, p.world.db.runs.get r = some x ∧
        Life (∀ p l, C p l → Served r p l) cfg.provisionMaxAttempts run p g x) ?_ ?_ ?_ ?_
  · refine ⟨_, Pool.TrackedTo.boot _ (body_recovery cfg), recovering_boot cfg C w r,
      fun run hrun _ => ⟨run, hrun, .waiting (fun i t ht => ?_) (fun _ _ h => by cases h)
        fun _ _ _ h => by cases h⟩⟩
    obtain ⟨-, rfl⟩ := Pool.getElem?_boot ht
    exact ⟨nofun, fun _ h => by cases h⟩
  · rintro p g i e n op next hT ⟨hJ, hlife⟩ ht ha hc
    refine ⟨hJ.after ht ha hc, fun run hrun hs => ?_⟩
    obtain ⟨x, hx, hL⟩ := hlife run hrun hs
    obtain rfl := Table.key_of_get hrun
    obtain ⟨y, hy, hL', -⟩ := hL.after hJ hT hx hs ht ha hc (hC p _ hc).2
    exact ⟨y, hy, hL'⟩
  · exact fun p g n _ _ hc => (hC p _ hc).1.elim
  · exact fun p g e _ hc => (hC p _ hc).1.elim

theorem disposed_of_obeys {run : Run} {ls : List (Step cfg)}
    (h : (System.start cfg w).exec ls = some p)
    (hC : (System.start cfg w).Obeys (fun p l => Internal p l ∧ Spares p l) ls)
    (hrun : w.db.runs.get run.id = some run) (hs : run.status = .provisioning) :
    ∃ now, p.world.db.runs.get run.id = some now ∧ Disposed cfg.provisionMaxAttempts run
      (disposals run (System.start cfg w) ls) now := by
  refine Pool.trace_invariant (I := fun (p : System cfg) bs =>
    ∃ now, p.world.db.runs.get run.id = some now ∧
    Disposed cfg.provisionMaxAttempts run bs now) h hC ⟨run, hrun, .waiting⟩ ?_
  rintro p q l bs hp ⟨x, hx, hd⟩ hc hstep
  obtain ⟨g, hT, hJ, hlife⟩ := recovering_of_reach (fun _ _ h => h) hp run.id
  obtain ⟨x', hx', hL⟩ := hlife run hrun hs
  cases hx'.symm.trans hx
  rcases Pool.step_cases hstep with ⟨i, e, n, op, next, rfl, ht, rfl⟩ | ⟨_, rfl, -⟩ | ⟨_, rfl, -⟩
  · obtain ⟨y, hy, -, htreat⟩ := hL.after hJ hT hx hs ht (hT i _ ht).1 hc hc.2
    refine ⟨y, hy, ?_⟩
    have hd' := hd.treated htreat hs
    rwa [← hy] at hd'
  · exact hc.1.elim
  · exact hc.1.elim

/-- When its recovery task has ended with all its calls answered, somebody has taken the run, and a
run without attempts left is failed. -/
theorem disposed_of_ended {run x : Run}
    (hC : ∀ p l, C p l → (Internal p l ∧ Spares p l) ∧ Served run.id p l)
    (h : Pool.Reach C (System.start cfg w) p) (hrun : w.db.runs.get run.id = some run)
    (hs : run.status = .provisioning) {k : Nat} (hk : p.recovering k = some run.id)
    (hend : p.Ended k) (hx : p.world.db.runs.get run.id = some x) :
    x ≠ run ∧ (cfg.provisionMaxAttempts ≤ run.provisionAttempts + 1 → x.status = .failed) := by
  obtain ⟨g, hT, hJ, hlife⟩ := recovering_of_reach (fun p l h => (hC p l h).1) h run.id
  obtain ⟨x', hx', hL⟩ := hlife run hrun hs
  cases hx'.symm.trans hx
  have hserved : ∀ p l, C p l → Served run.id p l := fun p l h => (hC p l h).2
  obtain ⟨t, ht, -⟩ := id hend
  have hlt := Pool.lt_of_getElem? ht
  -- the task is through
  have hthrough : g k = .through run.id := by
    have hrec := (recovering_of_get ht).symm.trans hk
    have hstages := (hJ.named k t ht).1
    obtain ⟨n, prog⟩ := t
    obtain ⟨_, hclosed⟩ := hT.ended hend
    cases n <;> cases hrec
    rcases hstages with h | h | h
    · rw [h] at hclosed
      exact hclosed.elim
    · rw [h] at hclosed
      exact hclosed.elim
    · exact h
  cases hL with
  | waiting _ _ hd => exact absurd hthrough (hd hserved k hlt)
  | reaped t =>
    refine ⟨fun h => ?_, fun _ => rfl⟩
    rw [← h] at hs
    cases hs
  | givenUp hm hat hst _ _ hd =>
    refine ⟨fun h => ?_, fun _ => hst.resolve_left fun hp => hd hserved hp k hlt hthrough⟩
    rw [h] at hat
    omega
  | again hm hat _ =>
    refine ⟨fun h => ?_, fun h => absurd h hm⟩
    rw [h] at hat
    omega

theorem row_of_recovery {q : System cfg} {i : Nat} {e : (orchestrator cfg).Env} {r' : RunId}
    (h : Pool.Reach (fun p l => Internal p l ∧ Spares p l) (System.start cfg w) p)
    (hw : ∀ run, w.db.runs.get r = some run → run.status ≠ .provisioning)
    (hrec : p.recovering i = some r') (hs : p.step (.run i e) = some q) :
    q.world.db.runs.get r = p.world.db.runs.get r := by
  obtain ⟨g, -, hJ, -⟩ := recovering_of_reach (fun _ _ h => h) h r
  rcases Pool.step_cases hs with ⟨i, e, n, op, next, ⟨⟩, ht, rfl⟩ | ⟨_, ⟨⟩, -⟩ | ⟨_, ⟨⟩, -⟩
  have hn := (recovering_of_get ht).symm.trans hrec
  have hmay := System.may_of_call h ht
  have hstages := (hJ.named i _ ht).1
  cases n <;> cases hn
  -- a recovery task of the run would hold it
  have hne : r' ≠ r := by
    rintro rfl
    obtain ⟨run, hrun, hprov⟩ := hJ.found i (Pool.lt_of_getElem? ht) (by
      rcases hstages with h | h | h <;> rw [h] <;> exact rfl)
    exact hw run hrun hprov
  rcases System.step_db hs with he | ⟨c, e', t, a, hc, htx⟩
  · rw [he]
  rw [System.queries_run ht] at hc
  cases op with
  | db q =>
    cases hc
    rcases Query.rowStep htx r with he | ⟨x, y, hx, -, hwrite⟩ | ⟨run, rfl, -⟩
    · exact he
    · obtain rfl := Table.key_of_get hx
      cases hwrite <;> first
        | exact hmay.elim
        | exact absurd hmay.symm hne
        | exact absurd hmay.1.symm hne
    · exact hmay.elim
  | _ => cases hc

end

/-- As long as the watchdog spares the runs under recovery, each run found in provisioning is taken
by recovery or by the watchdog, and by one of them only; once its recovery task has ended, with its
calls answered, it has been taken. Recovery changes no other run. -/
theorem orphans_disposed_once {w : World} {p : System cfg} {ls : List (Step cfg)} (r : RunId)
    (h : (System.start cfg w).exec ls = some p)
    (hC : (System.start cfg w).Obeys (fun p l => Internal p l ∧ Spares p l) ls) :
    (∀ run ∈ w.db.runs.get r, run.status = .provisioning → ∃ now ∈ p.world.db.runs.get r,
      Disposed cfg.provisionMaxAttempts run (disposals run (System.start cfg w) ls) now ∧
      ((System.start cfg w).Obeys (Served r) ls →
        (∃ k < p.tasks.length, p.recovering k = some r ∧ p.Ended k) →
        disposals run (System.start cfg w) ls ≠ [] ∧
        (cfg.provisionMaxAttempts ≤ run.provisionAttempts + 1 → now.status = .failed))) ∧
    ((∀ run ∈ w.db.runs.get r, run.status ≠ .provisioning) → ∀ i e q, (p.recovering i).isSome →
      p.step (.run i e) = some q → q.world.db.runs.get r = p.world.db.runs.get r) := by
  constructor
  · intro run hrun hs
    obtain rfl := Table.key_of_get hrun
    obtain ⟨now, hnow, hd⟩ := disposed_of_obeys h hC hrun hs
    refine ⟨now, hnow, hd, fun hserved ⟨k, _, hk, hend⟩ => ?_⟩
    obtain ⟨hne, hfailed⟩ := disposed_of_ended (fun _ _ h => h)
      (Pool.reach_of_obeys h (hC.and hserved)) hrun hs hk hend hnow
    refine ⟨fun hnil => hne ?_, hfailed⟩
    rw [hnil] at hd
    cases hd
    rfl
  · intro hw i e q hrec hs
    obtain ⟨r', hr'⟩ := Option.isSome_iff_exists.1 hrec
    exact row_of_recovery (Pool.reach_of_obeys h hC) hw hr' hs

instance Internal.decidable (p : System cfg) : (l : Step cfg) → Decidable (Internal p l)
  | .run .. => isTrue trivial
  | .arrive _ | .crash _ => isFalse id

instance Spares.decidable (p : System cfg) (l : Step cfg) : Decidable (Spares p l) :=
  have : DecidablePred fun c : Query × Env => c.2.fault = .before ∨ ∀ k < p.tasks.length,
      ∀ r ∈ p.recovering k, r ∈ c.1.reaps p.world.db → p.Ended k := fun c =>
    have : DecidablePred fun k => ∀ r ∈ p.recovering k, r ∈ c.1.reaps p.world.db → p.Ended k :=
      fun k => Option.decidableForallMem (p.recovering k)
    inferInstance
  Option.decidableForallMem (p.queries l)

instance Served.decidable (r : RunId) (p : System cfg) : (l : Step cfg) → Decidable (Served r p l)
  | .run i e =>
    inferInstanceAs (Decidable (p.recovering i = some r → ∀ c ∈ p.queries (.run i e), _))
  | .arrive _ | .crash _ => isTrue trivial

namespace Sample

/-- The process finds one run in provisioning, since the time 0. -/
def orphan : Run := { run with status := .provisioning, startedAt := none }

def withOrphan : World :=
  { world with
    db := { Db.empty with runs := Db.empty.runs.add orphan (by simp [Db.empty, Table.empty]) } }

/-- Recovery (task 1) is through before the first tick (task 2) gets to the watchdog. -/
def recoveredFirst : List (Step config) :=
  steps 0 6 ++ steps 1 5 ++ .run 2 { elapsed := 31 * 60 * 1000000 } :: steps 2 6

/-- The tick gets to the watchdog while recovery is in its destroy. -/
def reapedFirst : List (Step config) :=
  steps 0 6 ++ steps 1 1 ++ .run 2 { elapsed := 31 * 60 * 1000000 } :: steps 2 6 ++ steps 1 4

end Sample

theorem orphans_disposed_of_recoveredFirst :
    disposals Sample.orphan (System.start Sample.config Sample.withOrphan) Sample.recoveredFirst ≠
    [] := by
  have hdisposed := (orphans_disposed_once 7
    (Pool.exec_play (System.start Sample.config Sample.withOrphan)
      Sample.recoveredFirst (by decide))
    (by decide +kernel)).1 Sample.orphan rfl rfl
  obtain ⟨now, -, -, hserved⟩ := hdisposed
  exact (hserved (by decide +kernel) ⟨1, by decide, by decide, by decide +kernel⟩).1

/-- The watchdog fails the run, and its recovery task puts it back into the queue. -/
theorem orphan_disposed_twice : ¬ ∀ (ls : List (Step Sample.config)) (p : System Sample.config),
    (System.start Sample.config Sample.withOrphan).exec ls = some p →
    (System.start Sample.config Sample.withOrphan).Obeys Internal ls →
    ∃ now ∈ p.world.db.runs.get 7, Disposed Sample.config.provisionMaxAttempts Sample.orphan
      (disposals Sample.orphan (System.start Sample.config Sample.withOrphan) ls) now := by
  intro h
  obtain ⟨now, -, hd⟩ := h Sample.reapedFirst _ (Pool.exec_play _ _ (by decide)) (by decide +kernel)
  have hlen : (disposals Sample.orphan (System.start Sample.config Sample.withOrphan)
      Sample.reapedFirst).length = 2 := by decide +kernel
  have hle := hd.length_le
  omega

end GrillPlatform
