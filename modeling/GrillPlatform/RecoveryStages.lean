import GrillPlatform.Exclusion

/-! The course of recovery: the stages of the task that boots, spawns the recovery tasks and then
polls, and of each recovery task; and what holds of them all until a run has been found. -/

namespace GrillPlatform
open Coroutine RunRepository
variable {cfg : Config}

/-- Where a task stands: the loop that boots and then spawns the recovery tasks, a tick with the
runs it has claimed, and a recovery task before and after its requeue. -/
inductive Stage where
  | boot
  | spawning (rs : List RunId)
  | polling (cs : List RunId)
  | cleaning (r : RunId)
  | exhausted (r : RunId)
  | through (r : RunId)
  | other

def TaskName.stage : TaskName → Stage
  | .pollingLoop => .boot
  | .pollTick => .polling []
  | .recoverOrphanedProvisioningRun r => .cleaning r
  | _ => .other

namespace Stage

def creates : Stage → TaskName → Prop
  | .spawning rs, .recoverOrphanedProvisioningRun r => rs.head? = some r
  | .polling cs, .handleQueuedRun r _ | .polling cs, .abortStuckRunning r _ => r ∈ cs
  | .spawning [], .pollTick | .polling _, .pollTick | .polling _, .abortStuckProvisioning _
  | .boot, .releaseNode _ | .other, .releaseNode _ => True
  | _, _ => False

def allows (γ : Stage) : Op → Prop
  | .createTask n => γ.creates n
  | .db .getOrphanedProvisioning => γ = .boot
  | .db (.claimQueued ..) | .db (.claimRunningTimedOut _) | .db (.claimProvisioningTimedOut _) =>
    ∃ cs, γ = .polling cs
  | .db (.requeueForRetry r _) => γ = .cleaning r ∨ γ = .other
  | .db (.setFailed r _ _) => γ = .exhausted r ∨ γ = .other
  | _ => True

def after : Stage → (op : Op) → op.Resp → Stage
  | .boot, .db .getOrphanedProvisioning, .ok rs => .spawning rs
  | .spawning rs, .createTask (.recoverOrphanedProvisioningRun _), _ => .spawning rs.tail
  | .spawning _, .createTask .pollTick, _ => .other
  | .polling cs, .db (.claimQueued ..), .ok claimed => .polling (cs ++ claimed.map Prod.fst)
  | .polling cs, .db (.claimRunningTimedOut _), .ok stuck => .polling (cs ++ stuck.map Prod.fst)
  | .cleaning r, .db (.requeueForRetry ..), .ok none => .exhausted r
  | .cleaning r, .db (.requeueForRetry ..), _ => .through r
  | .exhausted r, .db (.setFailed ..), _ => .through r
  | γ, _, _ => γ

/-- The task may still requeue the run, or have a task made that does. -/
def pending (r : RunId) : Stage → Prop
  | .boot => True
  | .spawning rs => r ∈ rs
  | .cleaning r' => r' = r
  | _ => False

/-- The run is, was, or will be recovered by the task or one it makes. -/
def holds (r : RunId) : Stage → Prop
  | .spawning rs => r ∈ rs
  | .cleaning r' | .exhausted r' | .through r' => r' = r
  | _ => False

/-- No recovery is left halfway. -/
def closed : Stage → Prop
  | .cleaning _ | .exhausted _ => False
  | _ => True

end Stage

def recovery : Protocol sig Stage := ⟨Stage.allows, Stage.after⟩

def TaskName.stages : TaskName → Stage → Prop
  | .pollingLoop, γ => γ = .boot ∨ (∃ rs, γ = .spawning rs) ∨ γ = .other
  | .pollTick, γ => ∃ cs, γ = .polling cs
  | .recoverOrphanedProvisioningRun r, γ => γ = .cleaning r ∨ γ = .exhausted r ∨ γ = .through r
  | .request _, _ => False
  | _, γ => γ = .other

theorem stages_after {n : TaskName} {γ : Stage} (h : n.stages γ) (op : Op) (a : op.Resp) :
    n.stages (γ.after op a) := by
  have hother : ∀ op a, Stage.after .other op a = .other := fun _ _ => rfl
  cases n with
  | pollingLoop =>
    rcases h with rfl | ⟨rs, rfl⟩ | rfl
    · unfold Stage.after
      split <;> simp_all [TaskName.stages]
    · unfold Stage.after
      split <;> simp_all [TaskName.stages]
    · exact .inr (.inr (hother op a))
  | pollTick =>
    obtain ⟨cs, rfl⟩ := h
    unfold Stage.after
    split <;> simp_all [TaskName.stages]
  | recoverOrphanedProvisioningRun r =>
    rcases h with rfl | rfl | rfl <;>
    · unfold Stage.after
      split <;> simp_all [TaskName.stages]
  | request => exact h
  | _ =>
    obtain rfl := h
    exact hother op a

def Neutral (op : Op) : Prop := ∀ γ : Stage, γ.allows op ∧ ∀ a, γ.after op a = γ

theorem maintains_neutral {α : Type} {I : Stage → Prop} {p : Async α}
    (hp : p.Calls (S := sig) Neutral) : p.Maintains recovery I :=
  hp.maintains fun γ _ h hop => ⟨(hop γ).1, fun a => by
    rw [show recovery.post γ _ a = γ from (hop γ).2 a]; exact h⟩

theorem neutral_of_releaseOp {r : RunId} (op : Op) (h : ReleaseOp r op) : Neutral op := by
  intro γ
  cases op with
  | db q => cases q <;> first | exact h.elim | exact ⟨trivial, fun _ => by cases γ <;> rfl⟩
  | createTask => exact h.elim
  | _ => exact ⟨trivial, fun _ => by cases γ <;> rfl⟩

theorem neutral_sleep (seconds : Nat) : Neutral (.sleep seconds) :=
  neutral_of_releaseOp (r := 0) _ trivial

theorem closed_of_requeue {r : RunId} {m : Int} (a : Op.Resp (.db (.requeueForRetry r m))) :
    (Stage.cleaning r).after (.db (.requeueForRetry r m)) a = .exhausted r ∧ a = .ok none ∨
    (Stage.cleaning r).after (.db (.requeueForRetry r m)) a = .through r ∧ a ≠ .ok none := by
  match a with
  | .error _ => exact .inr ⟨rfl, nofun⟩
  | .ok none => exact .inl ⟨rfl, rfl⟩
  | .ok (some _) => exact .inr ⟨rfl, nofun⟩

theorem releaseNode_returns (r : RunId) (γ : Stage) :
    (releaseNode r).Follows recovery (fun γ' e => γ' = γ ∧ e = .ok ()) γ := by
  have ha : (releaseAttempt r).Follows recovery (fun γ' e => γ' = γ ∧ ∃ done, e = .ok done) γ := by
    refine Prog.follows_tryCatch.2 ((maintains_neutral (I := fun γ' => γ' = γ) ?_).follows rfl
      fun γ' e h => ?_)
    · refine Prog.calls_bind ((destroyNode_calls (A := ReleaseOp r) r rfl rfl
        releaseOp_of_destroyOp).mono neutral_of_releaseOp) fun _ => ?_
      exact calls_query_bind.2 ⟨neutral_of_releaseOp _ rfl, fun _ => trivial⟩
    · cases e with
      | ok done => exact ⟨h, done, rfl⟩
      | error x => exact ⟨h, false, rfl⟩
  have h : ∀ attempts, (releaseFrom r attempts).Follows recovery
      (fun γ' e => γ' = γ ∧ e = .ok ()) γ := by
    intro attempts
    induction attempts with
    | nil => exact ⟨rfl, rfl⟩
    | cons attempt rest ih =>
      refine Prog.follows_bind.2 (ha.mono fun γ' e hd => ?_)
      obtain ⟨rfl, done, rfl⟩ := hd
      cases done with
      | true => exact ⟨rfl, rfl⟩
      | false =>
        simp only [Bool.false_eq_true, if_false]
        split
        · refine ⟨trivial, fun a => ?_⟩
          rw [show recovery.post γ' (.sleep _) a = γ' from (neutral_sleep _ γ').2 a]
          exact ih
        · exact ih
  exact h _

theorem recover_recovery (cfg : Config) (r : RunId) :
    (recoverOrphanedProvisioningRun cfg r).Follows recovery (fun γ _ => γ.closed)
    (.cleaning r) := by
  refine Prog.follows_bind.2 ((releaseNode_returns r _).mono fun γ e h => ?_)
  obtain ⟨rfl, rfl⟩ := h
  refine ⟨.inl rfl, fun a => ?_⟩
  match a with
  | .error x => exact trivial
  | .ok (some _) => exact trivial
  | .ok none =>
    refine ⟨trivial, fun t => ⟨.inl rfl, fun b => ?_⟩⟩
    cases b with
    | error x => exact trivial
    | ok _ => exact trivial

/-! The loop and its ticks. -/

theorem spawning_recovery {rs : List RunId} {Q : Stage → Except Exc Unit → Prop} {rest : Async Unit}
    (h : rest.Follows recovery Q (.spawning [])) :
    ((Prog.forEach rs fun r => createTask (.recoverOrphanedProvisioningRun r)).bind
      fun _ => rest).Follows recovery Q (.spawning rs) := by
  induction rs with
  | nil => exact h
  | cons r rs ih => exact ⟨rfl, fun _ => ih⟩

theorem pollingLoop_recovery :
    pollingLoop.Follows recovery (fun γ _ => γ.closed) .boot := by
  have hquota : refreshGpuQuota.Maintains recovery fun γ => γ = .boot := by
    refine maintains_neutral ⟨fun γ => ⟨trivial, fun _ => by cases γ <;> rfl⟩, fun e => ?_⟩
    cases e with
    | error x => trivial
    | ok live => exact calls_emit fun γ => ⟨trivial, fun _ => by cases γ <;> rfl⟩
  have hleaked : recoverLeakedNodes.Maintains recovery fun γ => γ = .boot := by
    refine Prog.maintains_bind (maintains_neutral (calls_query fun γ =>
      ⟨trivial, fun _ => by cases γ <;> rfl⟩)) fun leaked => Prog.maintains_forEach fun r _ => ?_
    rintro γ rfl
    exact ⟨trivial, fun _ => rfl⟩
  refine hquota.bind rfl (fun _ γ hγ => ?_) fun _ γ hγ => hγ ▸ trivial
  subst hγ
  refine hleaked.bind rfl (fun _ γ hγ => ?_) fun _ γ hγ => hγ ▸ trivial
  subst hγ
  have hspawn :
      ∀ rs, ((Prog.forEach rs fun r => createTask (.recoverOrphanedProvisioningRun r)).bind
      fun _ => createTask .pollTick).Follows recovery (fun γ _ => γ.closed) (.spawning rs) :=
    fun rs => spawning_recovery ⟨trivial, fun _ => trivial⟩
  show ((recoverOrphanedProvisioning).bind fun _ => createTask .pollTick).Follows _ _ _
  refine ⟨rfl, fun e => ?_⟩
  cases e with
  | error x => exact trivial
  | ok rs => exact hspawn rs

theorem spawn_recovery {β : Type} {f : β → TaskName} {xs : List β} {cs : List RunId}
    (h : ∀ x ∈ xs, (Stage.polling cs).creates (f x)) :
    (Prog.forEach xs fun x => createTask (f x)).Follows recovery (fun γ _ => ∃ cs, γ = .polling cs)
      (.polling cs) := by
  refine (Prog.maintains_forEach (I := fun γ => γ = .polling cs) fun x hx => ?_).follows rfl
    fun γ _ hγ => ⟨cs, hγ⟩
  rintro γ rfl
  exact ⟨h x hx, fun _ => rfl⟩

theorem pollOnce_recovery (cfg : Config) :
    (pollOnce cfg).Maintains recovery fun γ => ∃ cs, γ = .polling cs := by
  have hneutral : ∀ op, (∀ γ : Stage, γ.allows op ∧ ∀ a, γ.after op a = γ) →
      (Prog.emit (S := sig) (X := Exc) op).Maintains recovery fun γ => ∃ cs, γ = .polling cs :=
    fun op h => maintains_neutral (calls_emit h)
  have hnow : datetimeNow.Maintains recovery fun γ => ∃ cs, γ = .polling cs :=
    hneutral .now fun γ => ⟨trivial, fun _ => by cases γ <;> rfl⟩
  have hclaim : ∀ live g, (claimType live g).Maintains recovery fun γ => ∃ cs, γ = .polling cs := by
    intro live g
    refine Prog.maintains_bind (hneutral _ fun γ => ⟨trivial, fun _ => by cases γ <;> rfl⟩)
      fun quota => ?_
    cases quota with
    | none => exact Prog.maintains_pure ()
    | some quota =>
      rintro _ ⟨cs, rfl⟩
      refine ⟨⟨cs, rfl⟩, fun e => ?_⟩
      cases e with
      | error x => exact ⟨cs, rfl⟩
      | ok claimed =>
        exact spawn_recovery fun c hc => List.mem_append_right _ (List.mem_map_of_mem hc)
  refine Prog.maintains_bind (maintains_neutral (calls_query fun γ =>
    ⟨trivial, fun _ => by cases γ <;> rfl⟩)) fun live => Prog.maintains_bind
      (Prog.maintains_forEach fun g _ => hclaim live g) fun _ => Prog.maintains_bind
        (Prog.maintains_bind hnow fun now => ?_) fun _ => Prog.maintains_bind hnow fun now => ?_
  · rintro _ ⟨cs, rfl⟩
    refine ⟨⟨cs, rfl⟩, fun e => ?_⟩
    cases e with
    | error x => exact ⟨cs, rfl⟩
    | ok stuck => exact spawn_recovery fun _ _ => trivial
  · rintro _ ⟨cs, rfl⟩
    refine ⟨⟨cs, rfl⟩, fun e => ?_⟩
    cases e with
    | error x => exact ⟨cs, rfl⟩
    | ok stuck => exact spawn_recovery fun s hs => List.mem_append_right _ (List.mem_map_of_mem hs)

theorem pollTick_recovery (cfg : Config) :
    (pollTick cfg).Follows recovery (fun γ _ => γ.closed) (.polling []) := by
  have hsleep : (sleep cfg.pollIntervalSeconds).Maintains recovery fun γ => ∃ cs, γ = .polling cs :=
    maintains_neutral (calls_emit (neutral_sleep _))
  have htick : (pollTick cfg).Maintains recovery fun γ => ∃ cs, γ = .polling cs := by
    refine Prog.maintains_bind (Prog.maintains_tryCatch (pollOnce_recovery cfg) fun _ =>
      Prog.maintains_pure ()) fun _ => Prog.maintains_bind hsleep fun _ => ?_
    rintro _ ⟨cs, rfl⟩
    exact ⟨trivial, fun _ => ⟨cs, rfl⟩⟩
  exact htick.follows ⟨[], rfl⟩ fun γ _ ⟨cs, hγ⟩ => hγ ▸ trivial

theorem other_allows {n : TaskName} (hn : n.stage = .other) {op : Op} (h : n.may cfg op) :
    Stage.other.allows op := by
  cases op with
  | createTask m =>
    cases n with
    | request req => cases req <;> first | exact h.elim | (cases h; exact trivial)
    | pollingLoop | pollTick | recoverOrphanedProvisioningRun => cases hn
    | _ => exact h.elim
  | db q =>
    cases q with
    | getOrphanedProvisioning | claimQueued | claimRunningTimedOut | claimProvisioningTimedOut =>
      cases n with
      | request req => cases req <;> exact h.elim
      | pollingLoop | pollTick | recoverOrphanedProvisioningRun => cases hn
      | _ => exact h.elim
    | requeueForRetry | setFailed => exact .inr rfl
    | _ => exact trivial
  | _ => exact trivial

theorem body_recovery (cfg : Config) (n : TaskName) :
    (n.body cfg).Follows recovery (fun γ _ => γ.closed) n.stage := by
  have hother : ∀ n : TaskName, n.stage = .other →
      (n.body cfg).Follows recovery (fun γ _ => γ.closed) .other := fun n hn =>
    ((body_calls cfg n).maintains (I := fun γ => γ = .other) fun γ op hγ h => by
      subst hγ
      exact ⟨other_allows hn h, fun _ => rfl⟩).follows rfl fun γ _ hγ => hγ ▸ trivial
  cases n with
  | pollingLoop => exact pollingLoop_recovery
  | pollTick => exact pollTick_recovery cfg
  | recoverOrphanedProvisioningRun r => exact recover_recovery cfg r
  | handleQueuedRun | releaseNode | abortStuckRunning | abortStuckProvisioning | request =>
    exact hother _ rfl

section
variable {γ : Stage} {op : Op} {a : op.Resp} {r : RunId}

theorem Stage.pending_of_after (h : (γ.after op a).pending r) : γ.pending r := by
  unfold Stage.after at h
  split at h
  · trivial
  · exact List.mem_of_mem_tail h
  all_goals first | exact h | exact h.elim

theorem Stage.pending_of_creates {m : TaskName} (h : γ.creates m) (hm : m.stage.pending r) :
    γ.pending r := by
  unfold Stage.creates at h
  split at h
  · cases hm
    exact List.mem_of_mem_head? h
  all_goals first | exact h.elim | exact hm.elim

theorem Stage.holds_of_after (h : (γ.after op a).holds r) :
    γ.holds r ∨ γ = .boot ∧ op = .db .getOrphanedProvisioning ∧ r ∈ issued op a := by
  unfold Stage.after at h
  split at h
  · exact .inr ⟨rfl, rfl, h⟩
  · exact .inl (List.mem_of_mem_tail h)
  all_goals first | exact .inl h | exact h.elim

theorem Stage.moved_of_after (h : (γ.after op a).holds r) (hr : ¬ (γ.after op a).pending r) :
    γ.after op a = γ ∨ γ = .cleaning r ∧ (∃ r' m, op = .db (.requeueForRetry r' m)) ∨
      γ = .exhausted r ∧ ∃ r' t msg, op = .db (.setFailed r' t msg) := by
  unfold Stage.after at h hr ⊢
  split at h
  · exact absurd h hr
  · exact absurd h hr
  all_goals first
    | exact h.elim
    | exact .inl rfl
    | (cases h; exact .inr (.inl ⟨rfl, _, _, rfl⟩))
    | (cases h; exact .inr (.inr ⟨rfl, _, _, _, rfl⟩))

end

/-- The runs a tick gets tasks for. -/
def seized : (op : Op) → op.Resp → List RunId
  | .db (.claimQueued ..), .ok claimed => claimed.map Prod.fst
  | .db (.claimRunningTimedOut _), .ok stuck => stuck.map Prod.fst
  | _, _ => []

theorem polling_of_after {γ : Stage} {op : Op} {a : op.Resp} {cs : List RunId}
    (h : γ.after op a = .polling cs) :
    ∃ cs₀, γ = .polling cs₀ ∧ ∀ r ∈ cs, r ∈ cs₀ ∨ r ∈ seized op a := by
  unfold Stage.after at h
  split at h
  all_goals try cases h
  · exact ⟨_, rfl, fun r hr => List.mem_append.1 hr⟩
  · exact ⟨_, rfl, fun r hr => List.mem_append.1 hr⟩
  · exact ⟨cs, rfl, fun r hr => .inl hr⟩

theorem seized_status {q : Query} {e : Env} {now : Time} {db : Db} {r : RunId}
    (hr : r ∈ seized (.db q) (q.run e now db).1) :
    ∃ run, db.runs.get r = some run ∧ (run.status = .queued ∨ run.status = .running) := by
  cases h : (q.run e now db).1 with
  | error x =>
    rw [h] at hr
    cases q <;> cases hr
  | ok a =>
    rw [h] at hr
    have htx := Query.run_ok h
    cases q with
    | claimQueued g limit =>
      obtain ⟨run, hg, hs, -⟩ := (claimQueued_ok htx).2.2 r hr
      exact ⟨run, hg, .inl hs⟩
    | claimRunningTimedOut cutoff =>
      injection htx with htx
      obtain ⟨rfl, -⟩ := Prod.mk.inj htx
      obtain ⟨⟨r', phase⟩, hpair, rfl⟩ := List.mem_map.1 hr
      obtain ⟨run, hrun, he⟩ := List.mem_map.1 hpair
      obtain ⟨hrow, hc⟩ := List.mem_filter.1 hrun
      cases he
      exact ⟨run, Table.get_eq_some.2 ⟨hrow, rfl⟩, .inr (of_decide_eq_true hc).1⟩
    | _ => cases hr

theorem stages_of_creates {γ : Stage} {m : TaskName} (h : γ.creates m) :
    m.stages m.stage ∧ m ≠ .pollingLoop := by
  cases m with
  | pollingLoop => cases γ <;> exact h.elim
  | request => cases γ <;> exact h.elim
  | pollTick => exact ⟨⟨[], rfl⟩, nofun⟩
  | recoverOrphanedProvisioningRun => exact ⟨.inl rfl, nofun⟩
  | _ => exact ⟨rfl, nofun⟩

/-! ## The tasks of the process -/

def TaskName.works : TaskName → Option RunId
  | .handleQueuedRun r _ | .abortStuckRunning r _ => some r
  | _ => none

/-- The tasks are at their stages; before the run is found its row is as it was and no tick goes,
and one task at most holds it. -/
structure Recovering (C : System cfg → Step cfg → Prop) (w : World) (r : RunId) (p : System cfg)
    (g : Nat → Stage) : Prop where
  reach : Pool.Reach C (System.start cfg w) p
  named : ∀ i t, p.tasks[i]? = some t →
    TaskName.stages t.name (g i) ∧ (t.name = .pollingLoop → i = 0)
  booting : ∀ i < p.tasks.length, g i = .boot → p.world.db.runs.get r = w.db.runs.get r ∧
    ∀ j t, p.tasks[j]? = some t → j ≠ i → ∃ r', t.name = .releaseNode r'
  spawning : ∀ i < p.tasks.length, ∀ rs, g i = .spawning rs → rs.Nodup ∧
    ∀ j < p.tasks.length, ∀ cs, g j ≠ .polling cs
  found : ∀ i < p.tasks.length, (g i).holds r →
    ∃ run, w.db.runs.get r = some run ∧ run.status = .provisioning
  unique : ∀ i < p.tasks.length, ∀ j < p.tasks.length, (g i).holds r → (g j).holds r → i = j

section
variable {C : System cfg → Step cfg → Prop} {w : World} {r : RunId} {p : System cfg}
  {g : Nat → Stage} {i : Nat} {n : (orchestrator cfg).Name} {op : sig.Op}
  {next : sig.Resp op → Prog sig Exc Unit} {e : (orchestrator cfg).Env}

theorem name_of_boot {n : TaskName} (h : n.stages .boot) : n = .pollingLoop := by
  cases n <;> simp [TaskName.stages] at h ⊢

theorem name_of_spawning {n : TaskName} {rs : List RunId} (h : n.stages (.spawning rs)) :
    n = .pollingLoop := by
  cases n <;> simp [TaskName.stages] at h ⊢

theorem name_of_cleaning {n : TaskName} (h : n.stages (.cleaning r)) :
    n = .recoverOrphanedProvisioningRun r := by
  cases n <;> simp [TaskName.stages] at h ⊢
  exact h.symm

theorem row_kept (hp : Pool.Reach C (System.start cfg w) p)
    (ht : p.tasks[i]? = some ⟨n, .call op next⟩)
    (hn : n = .pollingLoop ∨ ∃ r', n = .releaseNode r') (r : RunId) :
    (p.after i n op next e).world.db.runs.get r = p.world.db.runs.get r := by
  have hmay := System.may_of_call hp ht
  have hstep : p.step (.run i e) = some (p.after i n op next e) := Pool.step_run ht
  rcases System.step_db hstep with he | ⟨c, e', t, a, hc, htx⟩
  · rw [he]
  rw [System.queries_run ht] at hc
  cases op with
  | db q =>
    cases hc
    rcases Query.rowStep htx r with he | ⟨x, y, -, -, hw⟩ | ⟨run, rfl, -⟩
    · exact he
    · rcases hn with rfl | ⟨r', rfl⟩ <;> cases hw <;> exact hmay.elim
    · rcases hn with rfl | ⟨r', rfl⟩ <;> exact hmay.elim
  | _ => cases hc

abbrev staged (p : System cfg) (g : Nat → Stage) (i : Nat) (n : (orchestrator cfg).Name)
    (op : sig.Op) (e : (orchestrator cfg).Env) : Nat → Stage :=
  Pool.ghost recovery TaskName.stage g i op (answer p i n op e) p.tasks.length
    ((orchestrator cfg).handle i n op e p.world).2.2

theorem staged_cases (ht : p.tasks[i]? = some ⟨n, .call op next⟩) {j : Nat}
    (hj : j < (p.after i n op next e).tasks.length) :
    (j = i ∧ staged p g i n op e j = (g i).after op (answer p i n op e)) ∨
    (j ≠ i ∧ j < p.tasks.length ∧ staged p g i n op e j = g j) ∨
    (j = p.tasks.length ∧ ∃ m, (op : Op) = .createTask m ∧ staged p g i n op e j = m.stage) := by
  obtain h | h | ⟨hl, m, hm, hg⟩ := Pool.ghost_cases recovery TaskName.stage g
    (Pool.lt_of_getElem? ht) hj
  · exact .inl h
  · exact .inr (.inl h)
  · exact .inr (.inr ⟨hl, m, created_eq hm, hg⟩)

theorem boot_of_after {γ : Stage} {op : Op} {a : op.Resp} (h : γ.after op a = .boot) :
    γ = .boot := by
  unfold Stage.after at h
  split at h
  all_goals first | exact h | cases h

theorem spawning_of_after {γ : Stage} {op : Op} {a : op.Resp} {rs : List RunId}
    (h : γ.after op a = .spawning rs) :
    (γ = .boot ∧ rs = issued op a ∧ ∀ m, op ≠ .createTask m) ∨ ∃ rs₀, γ = .spawning rs₀ ∧
      op ≠ .createTask .pollTick ∧ (rs = rs₀ ∨ rs = rs₀.tail) := by
  have hpoll : ∀ rs₀, γ = .spawning rs₀ → op ≠ .createTask .pollTick := by
    rintro rs₀ rfl rfl
    cases h
  unfold Stage.after at h
  split at h
  all_goals try cases h
  · exact .inl ⟨rfl, rfl, nofun⟩
  · exact .inr ⟨_, rfl, nofun, .inr rfl⟩
  · exact .inr ⟨rs, rfl, hpoll rs rfl, .inl rfl⟩

theorem Recovering.other_of_releases (hJ : Recovering C w r p g) {j : Nat} (hj : j < p.tasks.length)
    {k : Nat} (hk : g k = .boot) (hkl : k < p.tasks.length) (hne : j ≠ k) : g j = .other := by
  have ht := List.getElem?_eq_getElem hj
  obtain ⟨r', hr⟩ := (hJ.booting k hkl hk).2 j _ ht hne
  have hs := (hJ.named j _ ht).1
  rw [hr] at hs
  exact hs

theorem Recovering.named_after (hJ : Recovering C w r p g)
    (ht : p.tasks[i]? = some ⟨n, .call op next⟩) (ha : (g i).allows op) {j : Nat}
    {t : Coroutine.Task (orchestrator cfg)} (hj : (p.after i n op next e).tasks[j]? = some t) :
    TaskName.stages t.name (staged p g i n op e j) ∧ (t.name = .pollingLoop → j = 0) := by
  have hi := Pool.lt_of_getElem? ht
  rcases Pool.getElem?_after hj with ⟨rfl, rfl⟩ | ⟨hne, hj⟩ | ⟨rfl, m, hm, rfl⟩
  · obtain ⟨hs, hl⟩ := hJ.named j _ ht
    rw [staged, Pool.ghost_self]
    exact ⟨stages_after hs op _, hl⟩
  · rw [staged, Pool.ghost_other hne (Nat.ne_of_lt (Pool.lt_of_getElem? hj))]
    exact hJ.named j t hj
  · obtain rfl := created_eq hm
    obtain ⟨hs, hl⟩ := stages_of_creates ha
    rw [staged, hm, Pool.ghost_new hi]
    exact ⟨hs, fun h => absurd h hl⟩

theorem Recovering.booting_after (hJ : Recovering C w r p g)
    (ht : p.tasks[i]? = some ⟨n, .call op next⟩) (ha : (g i).allows op) {k : Nat}
    (hk : k < (p.after i n op next e).tasks.length) (hb : staged p g i n op e k = .boot) :
    (p.after i n op next e).world.db.runs.get r = w.db.runs.get r ∧
    ∀ j t, (p.after i n op next e).tasks[j]? = some t → j ≠ k →
      ∃ r', t.name = .releaseNode r' := by
  rcases staged_cases (g := g) ht hk with ⟨rfl, hg⟩ | ⟨hne, hlt, hg⟩ | ⟨rfl, m, rfl, hg⟩
  · -- the loop itself: it may have made a release
    have hboot := boot_of_after (hg.symm.trans hb)
    obtain ⟨hrow, hothers⟩ := hJ.booting k (Pool.lt_of_getElem? ht) hboot
    have hn := name_of_boot (hboot ▸ (hJ.named k _ ht).1)
    refine ⟨(row_kept hJ.reach ht (.inl hn) r).trans hrow, fun j t hj hjk => ?_⟩
    rcases Pool.getElem?_after hj with ⟨rfl, -⟩ | ⟨-, hj⟩ | ⟨-, m, hm, rfl⟩
    · exact absurd rfl hjk
    · exact hothers j t hj hjk
    · obtain rfl := created_eq hm
      rw [hboot] at ha
      cases m with
      | releaseNode r' => exact ⟨r', rfl⟩
      | _ => exact ha.elim
  · -- a release next to the loop
    obtain ⟨hrow, hothers⟩ := hJ.booting k hlt (hg.symm.trans hb)
    obtain ⟨r', hn⟩ := hothers i _ ht hne.symm
    refine ⟨(row_kept hJ.reach ht (.inr ⟨r', hn⟩) r).trans hrow, fun j t hj hjk => ?_⟩
    rcases Pool.getElem?_after hj with ⟨rfl, rfl⟩ | ⟨-, hj⟩ | ⟨-, m, hm, rfl⟩
    · exact ⟨r', hn⟩
    · exact hothers j t hj hjk
    · obtain rfl := created_eq hm
      have hmay := System.may_of_call hJ.reach ht
      rw [show n = _ from hn] at hmay
      exact hmay.elim
  · have hm := hg.symm.trans hb
    cases m with
    | pollingLoop => exact absurd rfl (stages_of_creates ha).2
    | _ => cases hm

theorem Recovering.spawning_after (hJ : Recovering C w r p g)
    (ht : p.tasks[i]? = some ⟨n, .call op next⟩) (ha : (g i).allows op) {k : Nat}
    (hk : k < (p.after i n op next e).tasks.length) {rs : List RunId}
    (hb : staged p g i n op e k = .spawning rs) : rs.Nodup ∧
    ∀ j < (p.after i n op next e).tasks.length, ∀ cs, staged p g i n op e j ≠ .polling cs := by
  have hi := Pool.lt_of_getElem? ht
  -- a tick that goes on was going, or the caller made it
  have hpoll :
      ∀ j < (p.after i n op next e).tasks.length, ∀ cs, staged p g i n op e j = .polling cs →
      (∃ j₀ < p.tasks.length, ∃ cs₀, g j₀ = .polling cs₀) ∨ (op : Op) = .createTask .pollTick := by
    intro j hj cs hc
    rcases staged_cases (g := g) ht hj with ⟨rfl, hg⟩ | ⟨-, hlt, hg⟩ | ⟨rfl, m, rfl, hg⟩
    · obtain ⟨cs₀, h, -⟩ := polling_of_after (hg.symm.trans hc)
      exact .inl ⟨j, hi, cs₀, h⟩
    · exact .inl ⟨j, hlt, cs, hg.symm.trans hc⟩
    · have hm := hg.symm.trans hc
      cases m with
      | pollTick => exact .inr rfl
      | _ => cases hm
  rcases staged_cases (g := g) ht hk with ⟨rfl, hg⟩ | ⟨hne, hlt, hg⟩ | ⟨rfl, m, rfl, hg⟩
  · rcases spawning_of_after (hg.symm.trans hb) with ⟨hboot, rfl, hop⟩ | ⟨rs₀, hs, hop, htail⟩
    · refine ⟨issued_nodup, fun j hj cs hc => ?_⟩
      rcases hpoll j hj cs hc with ⟨j₀, hj₀, cs₀, h⟩ | h
      · by_cases hjk : j₀ = k
        · cases (hjk ▸ hboot).symm.trans h
        · cases (hJ.other_of_releases hj₀ hboot hi hjk).symm.trans h
      · exact hop _ h
    · obtain ⟨hnd, hno⟩ := hJ.spawning k hi rs₀ hs
      refine ⟨?_, fun j hj cs hc => ?_⟩
      · rcases htail with rfl | rfl
        · exact hnd
        · exact hnd.sublist (List.tail_sublist rs₀)
      · rcases hpoll j hj cs hc with ⟨j₀, hj₀, cs₀, h⟩ | h
        · exact hno j₀ hj₀ cs₀ h
        · exact hop h
  · obtain ⟨hnd, hno⟩ := hJ.spawning k hlt rs (hg.symm.trans hb)
    refine ⟨hnd, fun j hj cs hc => ?_⟩
    rcases hpoll j hj cs hc with ⟨j₀, hj₀, cs₀, h⟩ | rfl
    · exact hno j₀ hj₀ cs₀ h
    · -- the tick is made by the loop, and there is one loop
      have hloop : ∀ {j : Nat} {rs : List RunId}, j < p.tasks.length → g j = .spawning rs → j = 0 :=
        fun hj hs => (hJ.named _ _ (List.getElem?_eq_getElem hj)).2
          (name_of_spawning (hs ▸ (hJ.named _ _ (List.getElem?_eq_getElem hj)).1))
      cases hgi : g i with
      | spawning rs' => exact hne ((hloop hlt (hg.symm.trans hb)).trans (hloop hi hgi).symm)
      | polling cs' => exact hno i hi cs' hgi
      | _ =>
        rw [hgi] at ha
        exact ha.elim
  · have hm := hg.symm.trans hb
    cases m <;> cases hm

theorem holds_staged (ht : p.tasks[i]? = some ⟨n, .call op next⟩) (ha : (g i).allows op) {k : Nat}
    (hk : k < (p.after i n op next e).tasks.length) (hh : (staged p g i n op e k).holds r) :
    (k < p.tasks.length ∧ (g k).holds r ∧ (k = i → ((g i).after op (answer p i n op e)).holds r)) ∨
    (k = i ∧ g i = .boot ∧ (op : Op) = .db .getOrphanedProvisioning ∧
      r ∈ issued op (answer p i n op e)) ∨
    (k = p.tasks.length ∧ ∃ rs, g i = .spawning (r :: rs) ∧
      (g i).after op (answer p i n op e) = .spawning rs) := by
  rcases staged_cases (g := g) ht hk with ⟨rfl, hg⟩ | ⟨hne, hlt, hg⟩ | ⟨rfl, m, rfl, hg⟩
  · rw [hg] at hh
    rcases Stage.holds_of_after hh with h | ⟨hb, hop, hr⟩
    · exact .inl ⟨Pool.lt_of_getElem? ht, h, fun _ => hh⟩
    · exact .inr (.inl ⟨rfl, hb, hop, hr⟩)
  · exact .inl ⟨hlt, hg ▸ hh, fun h => absurd h hne⟩
  · rw [hg] at hh
    cases m with
    | recoverOrphanedProvisioningRun r' =>
      obtain rfl : r' = r := hh
      refine .inr (.inr ⟨rfl, ?_⟩)
      cases hgi : g i with
      | spawning rs =>
        rw [hgi] at ha
        cases rs with
        | nil => cases ha
        | cons r'' rs =>
          cases ha
          exact ⟨rs, rfl, rfl⟩
      | _ =>
        rw [hgi] at ha
        exact ha.elim
    | _ => exact hh.elim

theorem Recovering.found_after (hJ : Recovering C w r p g)
    (ht : p.tasks[i]? = some ⟨n, .call op next⟩) (ha : (g i).allows op) {k : Nat}
    (hk : k < (p.after i n op next e).tasks.length) (hh : (staged p g i n op e k).holds r) :
    ∃ run, w.db.runs.get r = some run ∧ run.status = .provisioning := by
  have hi := Pool.lt_of_getElem? ht
  rcases holds_staged ht ha hk hh with ⟨hlt, h, -⟩ | ⟨rfl, hb, rfl, hr⟩ | ⟨rfl, rs, hs, -⟩
  · exact hJ.found k hlt h
  · -- the loop reads the run's row as it was at the start
    obtain ⟨⟨run, hrun, hstatus⟩, -⟩ :=
      (issued_run .getOrphanedProvisioning e (p.world.clock + e.elapsed) p.world.db).2 r hr
    have hn := name_of_boot (hb ▸ (hJ.named k _ ht).1)
    have hrow := row_kept hJ.reach ht (e := e) (.inl hn) r
    exact ⟨run, ((hrow.trans (hJ.booting k hi hb).1).symm.trans hrun), hstatus⟩
  · exact hJ.found i hi (by rw [hs]; exact List.mem_cons_self)

theorem Recovering.unique_after (hJ : Recovering C w r p g)
    (ht : p.tasks[i]? = some ⟨n, .call op next⟩) (ha : (g i).allows op) {j k : Nat}
    (hj : j < (p.after i n op next e).tasks.length) (hk : k < (p.after i n op next e).tasks.length)
    (hhj : (staged p g i n op e j).holds r) (hhk : (staged p g i n op e k).holds r) : j = k := by
  have hi := Pool.lt_of_getElem? ht
  -- next to a loop that boots nobody holds the run
  have hboot : g i = .boot → ∀ {k : Nat}, k < p.tasks.length → ¬ (g k).holds r := by
    intro hb k hk hh
    by_cases hki : k = i
    · rw [hki, hb] at hh
      exact hh
    · rw [hJ.other_of_releases hk hb hi hki] at hh
      exact hh
  -- the loop that has made the run's task no longer holds the run
  have hspawn : ∀ {rs : List RunId}, g i = .spawning (r :: rs) →
      (g i).after op (answer p i n op e) = .spawning rs → ∀ {k : Nat}, k < p.tasks.length →
      (g k).holds r →
      (k = i → ((g i).after op (answer p i n op e)).holds r) → False := by
    intro rs hs ha' k hk hh hself
    have hki := hJ.unique k hk i hi hh (by rw [hs]; exact List.mem_cons_self)
    have hmem := hself hki
    rw [ha'] at hmem
    exact (List.nodup_cons.1 (hJ.spawning i hi _ hs).1).1 hmem
  rcases holds_staged ht ha hj hhj with ⟨hjl, hoj, hsj⟩ | ⟨rfl, hb, -⟩ | ⟨rfl, rs, hs, hafter⟩ <;>
  rcases holds_staged ht ha hk hhk with ⟨hkl, hok, hsk⟩ | ⟨rfl, hb', -⟩ | ⟨rfl, rs', hs', hafter'⟩
  · exact hJ.unique j hjl k hkl hoj hok
  · exact absurd hoj (hboot hb' hjl)
  · exact (hspawn hs' hafter' hjl hoj hsj).elim
  · exact absurd hok (hboot hb hkl)
  · rfl
  · cases hb.symm.trans hs'
  · exact (hspawn hs hafter hkl hok hsk).elim
  · cases hb'.symm.trans hs
  · rfl

theorem Recovering.after (hJ : Recovering C w r p g) (ht : p.tasks[i]? = some ⟨n, .call op next⟩)
    (ha : (g i).allows op) (hC : C p (.run i e)) :
    Recovering C w r (p.after i n op next e) (staged p g i n op e) where
  reach := hJ.reach.step (.run i e) hC (Pool.step_run ht)
  named _ _ hj := hJ.named_after ht ha hj
  booting _ hk hb := hJ.booting_after ht ha hk hb
  spawning _ hk _ hb := hJ.spawning_after ht ha hk hb
  found _ hk hh := hJ.found_after ht ha hk hh
  unique _ hj _ hk := hJ.unique_after ht ha hj hk

end

end GrillPlatform
