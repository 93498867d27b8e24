import GrillPlatform.NodeRows
import GrillPlatform.ProvisioningStages

/-! The end of `handle_queued_run`. Whether a server that is left can still be found goes by how
`provision_node` came out, by the destroy of the cleanup and by the repository calls that raised. -/

namespace GrillPlatform
open Coroutine NodeRepository
variable {cfg : Config}

/-- A server of the run is in use, kept for the next attempt, or found through its row. -/
def Kept (r : RunId) (w : World) : Prop :=
  w.cloud.server r = true → w.db.status r = some .running ∨ w.db.status r = some .queued ∨
    ∃ n ∈ w.db.nodesOf r, n.status ≠ .down

/-- The process does not stop, and no other task than `i` changes the run, its rows or its
server. -/
def Alone (i : Nat) (r : RunId) (p : System cfg) (l : Step cfg) : Prop :=
  match l with
  | .crash _ => False
  | .run j _ => j = i ∨ ∀ q ∈ p.step l, q.world.db.status r = p.world.db.status r ∧
      q.world.db.nodesOf r = p.world.db.nodesOf r ∧ q.world.cloud.server r = p.world.cloud.server r
  | .arrive _ => True

/-- A `terraform destroy` that leaves a server of the run: it is not run, it fails and leaves it, or
it succeeds without the state object recording it. -/
def Cloud.spares (c : Cloud) (r : RunId) (e : Env) : Bool :=
  e.fault = .before || !c.workspace r || if e.tfOk then !c.remoteState r else e.serverLeft

/-- How the calls of the task have come out. -/
structure Outcomes where
  /-- Whether `provision_node` leaves a server, or there is one from before it. -/
  left : Bool
  exc : Option Exc := none
  /-- Whether the destroy of the cleanup leaves a server that is there. -/
  spared : Bool := false
  /-- Whether an attempt was left at `requeue_for_retry`. -/
  again : Bool := false
  /-- The repository calls that raised, and whether they took effect all the same. -/
  raised : List (Query × Bool) := []

/-- A call that raises may have been committed. -/
def Query.committed (q : Query) (e : Env) (now : Time) (db : Db) : Bool :=
  e.fault = .after && (q.tx e.pick now db).isOk

namespace Outcomes

def noted (w : World) (ρ : Outcomes) : Query → Outcomes
  | .requeueForRetry r m => { ρ with
      again := (w.db.runs.get r).any fun run => run.provisionAttempts + 1 < m }
  | _ => ρ

def onQuery (w : World) (e : Env) (q : Query) (ρ : Outcomes) : Outcomes :=
  match (q.run e w.clock w.db).1 with
  | .ok _ => ρ.noted w q
  | .error _ => { ρ.noted w q with raised := ρ.raised ++ [(q, q.committed e w.clock w.db)] }

def after (cfg : Config) (r : RunId) (w : World) (e : Env) (ρ : Outcomes) : Op → Outcomes
  | .db q => ρ.onQuery w e q
  | .tf q =>
    let out := w.cloud.run cfg.readFile e q
    { ρ with
      exc := ρ.exc.or (q.exc out.1)
      left := match q with | .apply _ => out.2.server r | _ => ρ.left
      spared := match q with | .destroy _ => w.cloud.spares r e | _ => ρ.spared }
  | .workspaceExists _ => { ρ with spared := !w.cloud.workspace r }
  | _ => ρ

/-- A server is left, after the cleanup if there is one. -/
def remains (ρ : Outcomes) : Bool := ρ.left && !(ρ.exc.any isCapacity && !ρ.spared)

/-- A row still points to the server when this is the first call that raises. -/
def rowLeft (stood : Bool) : Query × Bool → Bool
  | (.createProvisioning .., committed) => committed || stood
  | (.setDownByRun _, committed) => !committed
  | (.setFailed .., _) => false
  | _ => true

/-- The run is in use or queued when this is the first call that raises. -/
def runKept (ρ : Outcomes) : Query × Bool → Bool
  | (.setRunning .., committed) => committed
  | (.requeueForRetry .., committed) => committed && ρ.again
  | (.setDownByRun _, _) => ρ.again
  | _ => false

/-- Nothing raises, and `provision_node` returned or an attempt is left; or the guard, after the
first call that raised, fails to mark the node down, or to fail a run that is kept. -/
def traced (stood : Bool) (ρ : Outcomes) : Bool :=
  match ρ.raised with
  | [] => ρ.exc.isNone || ρ.again
  | [c, (.setDownByRun _, committed)] => rowLeft stood c && !committed || ρ.runKept c
  | [c, (.setFailed .., committed)] => ρ.runKept c && !committed
  | _ => false

/-- No server is left, or it is traced. `stood` says whether a row stood at the start. -/
def Traceable (stood : Bool) (ρ : Outcomes) : Prop := ρ.remains = true → ρ.traced stood = true

end Outcomes

def outcomes (i : Nat) (r : RunId) (p : System cfg) (l : Step cfg) (_ : System cfg)
    (ρ : Outcomes) : Outcomes :=
  match l with
  | .run j e =>
    if j = i then
      match p.calls l with
      | some (op, _) => ρ.after cfg r { p.world with clock := p.world.clock + e.elapsed } e op
      | none => ρ
    else ρ
  | _ => ρ

def Db.stands (db : Db) (r : RunId) : Bool := (db.nodesOf r).any (·.status ≠ .down)

def Db.active (db : Db) (r : RunId) : Bool :=
  db.status r = some .running || db.status r = some .queued

section
variable {r : RunId} {db db' : Db}

theorem stands_iff : db.stands r = true ↔ ∃ n ∈ db.nodesOf r, n.status ≠ .down := by
  simp [Db.stands]

theorem kept_iff_found {w : World} :
    Kept r w ↔ (w.cloud.server r = true → (w.db.active r || w.db.stands r) = true) := by
  rw [Kept, ← stands_iff]
  simp only [Db.active, Bool.or_eq_true, decide_eq_true_eq, or_assoc]

theorem nodesOf_of_nodes (h : db'.nodes = db.nodes) (r : RunId) :
    db'.nodesOf r = db.nodesOf r := by rw [Db.nodesOf, Db.nodesOf, h]

theorem stands_of_nodesOf (h : db'.nodesOf r = db.nodesOf r) : db'.stands r = db.stands r := by
  rw [Db.stands, Db.stands, h]

theorem active_of_status (h : db'.status r = db.status r) : db'.active r = db.active r := by
  rw [Db.active, Db.active, h]

theorem stands_createProvisioning {g : GpuType} {a : Node}
    (h : createProvisioning r g db = .ok (a, db')) : db'.stands r = true := by
  cases (createProvisioning_ok r g db).symm.trans h
  exact stands_iff.2 ⟨_, Db.mem_nodesOf.2 ⟨Table.mem_put.2 (.inl rfl), rfl⟩, by simp⟩

theorem stands_setBusy {i : NodeId} {ip : String} {a : Unit}
    (h : setBusy r i ip db = .ok (a, db')) : db'.stands r = true := by
  unfold setBusy at h
  split at h
  · cases h
  · rename_i node hone
    split at h
    · cases h
    · rename_i nodes hrep
      cases h
      obtain ⟨hmem, hrun⟩ := mem_of_nodesOf (scalarOne_ok hone)
      exact stands_iff.2 ⟨_, Db.mem_nodesOf.2 ⟨(Table.mem_replace hrep hmem rfl).2 (.inl rfl), hrun⟩,
        by simp⟩

theorem stands_setDownByRun {a : Unit} (h : setDownByRun r db = .ok (a, db')) :
    db'.stands r = false := by
  refine Bool.eq_false_iff.2 fun hstands => ?_
  obtain ⟨n, hn, hs⟩ := stands_iff.1 hstands
  unfold setDownByRun at h
  split at h
  · cases h
  · -- the run has no row
    rename_i hnone
    cases h
    match hl : db.nodesOf r with
    | [] =>
      rw [hl] at hn
      cases hn
    | [node] =>
      rw [hl] at hnone
      cases hnone
    | _ :: _ :: _ =>
      rw [hl] at hnone
      cases hnone
  · rename_i node hone
    cases h
    have hl := scalarOneOrNone_some hone
    obtain ⟨hm, hr⟩ := Db.mem_nodesOf.1 hn
    rcases Table.mem_put.1 hm with rfl | ⟨hm, hk⟩
    · exact hs rfl
    · have hn : n ∈ db.nodesOf r := Db.mem_nodesOf.2 ⟨hm, hr⟩
      rw [hl, List.mem_singleton] at hn
      subst hn
      exact hk rfl

theorem status_requeue {m : Int} {a : Option Nat}
    (h : RunRepository.requeueForRetry r m db = .ok (a, db')) :
    db'.nodes = db.nodes ∧
      a.isSome = (db.runs.get r).any (fun run => run.provisionAttempts + 1 < m) ∧
      db'.status r = if a.isSome then some .queued else db.status r := by
  cases hg : db.runs.get r with
  | none =>
    rw [RunRepository.requeueForRetry, RunRepository.onRun_of_none _ _ _ hg] at h
    cases h
  | some run =>
    obtain ⟨a', d, ho, hget, hnone⟩ := RunRepository.requeueForRetry_of_get (m := m) hg
    cases ho.symm.trans h
    have htx : (Query.requeueForRetry r m).tx [] 0 db = .ok (a, db') := h
    refine ⟨(Query.frame_runs htx rfl).1, ?_, ?_⟩
    · cases a with
      | none => simpa using hnone.1 rfl
      | some n =>
        have hlt : ¬ m ≤ (run.provisionAttempts : Int) + 1 := fun hle => by cases hnone.2 hle
        simpa using hlt
    · rw [Db.status_of_get hget, Db.status_of_get hg]
      cases a with
      | none => simp [RunRepository.retried, hnone.1 rfl]
      | some n =>
        have hlt : ¬ m ≤ (run.provisionAttempts : Int) + 1 := fun hle => by cases hnone.2 hle
        simp [RunRepository.retried, hlt]

end

section
variable {r : RunId} {w : World} {ρ : Outcomes}

/-- A call that answers has committed its transaction. One that raises has, or has left all as it
was. -/
theorem Query.run_outcome (q : Query) (e : Env) (now : Time) (db : Db) :
    (∃ a, (q.run e now db).1 = .ok a ∧ q.tx e.pick now db = .ok (a, (q.run e now db).2)) ∨
    ∃ x, (q.run e now db).1 = .error x ∧
      (q.committed e now db = false ∧ (q.run e now db).2 = db ∨
        q.committed e now db = true ∧ ∃ a, q.tx e.pick now db = .ok (a, (q.run e now db).2)) := by
  unfold run Env.guard committed
  cases htx : q.tx e.pick now db with
  | error x => cases hf : e.fault <;> exact .inr ⟨_, rfl, .inl ⟨by simp [Except.isOk, Except.toBool], rfl⟩⟩
  | ok a =>
    cases hf : e.fault with
    | none => exact .inl ⟨a.1, rfl, rfl⟩
    | before => exact .inr ⟨_, rfl, .inl ⟨by simp, rfl⟩⟩
    | after => exact .inr ⟨_, rfl, .inr ⟨by simp [Except.isOk, Except.toBool], a.1, rfl⟩⟩

/-- Where the part under the guard has come to, as long as none of its repository calls has
raised. -/
structure Midway (r : RunId) (w : World) (ρ : Outcomes) (again : Bool) (s : RunStatus)
    (stands : Bool) : Prop where
  raised : ρ.raised = []
  again : ρ.again = again
  status : w.db.status r = some s
  stands : w.db.stands r = stands

/-- The guard is at work, after call `c` has raised. -/
structure Guarded (r : RunId) (w : World) (ρ : Outcomes) (c : Query × Bool) (stands : Bool) :
    Prop where
  raised : ρ.raised = [c]
  known : ∃ s, w.db.status r = some s
  active : w.db.active r = ρ.runKept c
  server : w.cloud.server r = ρ.remains
  stands : w.db.stands r = stands

/-- What is known in each phase. `stood` says whether a row stood at the start. -/
def Phase.holds (stood : Bool) (r : RunId) (w : World) (ρ : Outcomes) : Phase → Prop
  | .fresh => Midway r w ρ false .provisioning stood ∧ ρ.exc = none ∧ w.cloud.server r = ρ.left
  | .working x => Midway r w ρ false .provisioning true ∧ ρ.exc = x ∧ w.cloud.server r = ρ.left
  | .attended => Midway r w ρ false .provisioning true ∧ ρ.exc.any isCapacity = true ∧
      w.cloud.server r = ρ.remains
  | .requeued n =>
    Midway r w ρ n.isSome (if n.isSome then .queued else .provisioning) true ∧
      ρ.exc.isSome = true ∧ w.cloud.server r = ρ.remains
  | .downed => Midway r w ρ false .provisioning false ∧ ρ.exc.isSome = true ∧
      w.cloud.server r = ρ.remains
  | .guarded => ∃ c, Guarded r w ρ c (Outcomes.rowLeft stood c)
  | .lowered => ∃ c, Guarded r w ρ c false
  | .closed => Kept r w ↔ ρ.Traceable stood
  | .absent => False

theorem over_of {stood : Bool} (hserver : w.cloud.server r = ρ.remains)
    (h : (w.db.active r || w.db.stands r) = ρ.traced stood) : Kept r w ↔ ρ.Traceable stood := by
  rw [kept_iff_found, hserver, h, Outcomes.Traceable]

theorem active_of_some {db : Db} {s : RunStatus} (h : db.status r = some s) :
    db.active r = (s = .running || s = .queued) := by
  simp [Db.active, h]

theorem remains_noted (q : Query) : (ρ.noted w q).remains = ρ.remains := by cases q <;> rfl

theorem runKept_raised (raised : List (Query × Bool)) (c : Query × Bool) :
    { ρ with raised := raised }.runKept c = ρ.runKept c := by
  obtain ⟨q, committed⟩ := c
  cases q <;> rfl

variable {stood again stands : Bool} {s : RunStatus} {q : Query} {e : Env}

theorem onQuery_ok {a : q.Resp} (h : (q.run e w.clock w.db).1 = .ok a) :
    ρ.onQuery w e q = ρ.noted w q := by rw [Outcomes.onQuery, h]

theorem onQuery_error {x : Exc} (h : (q.run e w.clock w.db).1 = .error x) : ρ.onQuery w e q =
    { ρ.noted w q with raised := ρ.raised ++ [(q, q.committed e w.clock w.db)] } := by
  rw [Outcomes.onQuery, h]

theorem Midway.guarded {x : Exc} (hm : Midway r w ρ again s stands)
    (hserver : w.cloud.server r = ρ.remains) (hx : (q.run e w.clock w.db).1 = .error x)
    (hleft : w.db.active r = (ρ.noted w q).runKept (q, false) ∧
      stands = Outcomes.rowLeft stood (q, false))
    (hdone : ∀ a db', q.tx e.pick w.clock w.db = .ok (a, db') → ∃ s', db'.status r = some s' ∧
      (s' = .running || s' = .queued) = (ρ.noted w q).runKept (q, true) ∧
      db'.stands r = Outcomes.rowLeft stood (q, true)) :
    Phase.guarded.holds stood r { w with db := (q.run e w.clock w.db).2 } (ρ.onQuery w e q) := by
  refine ⟨(q, q.committed e w.clock w.db), ?_⟩
  rw [onQuery_error hx]
  rcases q.run_outcome e w.clock w.db with ⟨a, ha, -⟩ | ⟨-, -, ⟨hc, hdb⟩ | ⟨hc, a, htx⟩⟩
  · cases ha.symm.trans hx
  · rw [hc]
    refine ⟨by rw [hm.raised]; rfl, ⟨s, by rw [hdb]; exact hm.status⟩, ?_, ?_, ?_⟩
    · rw [runKept_raised, hdb]
      exact hleft.1
    · exact hserver.trans (remains_noted q).symm
    · rw [hdb]
      exact hm.stands.trans hleft.2
  · obtain ⟨s', hs, hactive, hstands⟩ := hdone a _ htx
    rw [hc]
    refine ⟨by rw [hm.raised]; rfl, ⟨s', hs⟩, ?_, hserver.trans (remains_noted q).symm, hstands⟩
    rw [runKept_raised, active_of_some hs]
    exact hactive

theorem status_of_nodes {pick : List RunId} {now : Time} {db db' : Db} {a : q.Resp}
    (h : q.tx pick now db = .ok (a, db')) (hq : q.onNodes = true) : db'.status r = db.status r := by
  rw [Db.status, Db.status, (Query.frame_nodes h hq).1]

theorem stands_of_runs {pick : List RunId} {now : Time} {db db' : Db} {a : q.Resp}
    (h : q.tx pick now db = .ok (a, db')) (hq : q.onNodes = false) : db'.stands r = db.stands r :=
  stands_of_nodesOf (nodesOf_of_nodes (Query.frame_runs h hq).1 r)

theorem status_setRunning {t : Time} {db db' : Db} {a : RunOf r}
    (h : RunRepository.setRunning r t db = .ok (a, db')) : db'.status r = some .running := by
  obtain ⟨run, hg, -, rfl⟩ := RunRepository.onRun_ok h
  rw [Db.status_modifyRun, if_pos rfl, hg]
  rfl

theorem status_setFailed {t : Time} {msg : Option String} {db db' : Db} {a : RunOf r}
    (h : RunRepository.setFailed r t msg db = .ok (a, db')) : db'.status r = some .failed := by
  obtain ⟨run, hg, -, rfl⟩ := RunRepository.onRun_ok h
  rw [Db.status_modifyRun, if_pos rfl, hg]
  rfl

theorem remains_of_left (h : ρ.exc.any isCapacity = false) : ρ.remains = ρ.left := by
  rw [Outcomes.remains, h]
  simp

theorem holds_createProvisioning {g : GpuType} (h : Phase.fresh.holds stood r w ρ) :
    let q := Query.createProvisioning r g
    (Phase.fresh.after (.db q) (q.run e w.clock w.db).1).holds stood r
      { w with db := (q.run e w.clock w.db).2 } (ρ.onQuery w e q) := by
  intro q
  obtain ⟨hm, hexc, hserver⟩ := h
  rcases q.run_outcome e w.clock w.db with ⟨a, ha, htx⟩ | ⟨x, hx, -⟩
  · rw [ha, onQuery_ok ha]
    exact ⟨⟨hm.raised, hm.again, (status_of_nodes htx rfl).trans hm.status,
      stands_createProvisioning htx⟩, hexc, hserver⟩
  · rw [hx]
    refine hm.guarded (hserver.trans (remains_of_left (by rw [hexc]; rfl)).symm) hx ?_ ?_
    · exact ⟨active_of_some hm.status, rfl⟩
    · exact fun a db' htx =>
        ⟨_, (status_of_nodes htx rfl).trans hm.status, rfl, stands_createProvisioning htx⟩

theorem holds_working (ha : (Phase.working none).allows r (.db q))
    (h : (Phase.working none).holds stood r w ρ) :
    ((Phase.working none).after (.db q) (q.run e w.clock w.db).1).holds stood r
      { w with db := (q.run e w.clock w.db).2 } (ρ.onQuery w e q) := by
  obtain ⟨hm, hexc, hserver⟩ := h
  have hremains : w.cloud.server r = ρ.remains :=
    hserver.trans (remains_of_left (by rw [hexc]; rfl)).symm
  cases q with
  | runGet r' =>
    obtain rfl : r' = r := ha
    rcases (Query.runGet r').run_outcome e w.clock w.db with ⟨a, ha, htx⟩ | ⟨x, hx, -⟩
    · obtain ⟨run, hg, -⟩ := Db.get_of_status hm.status
      obtain ⟨hfound, hdb⟩ :=
        Prod.mk.inj (Except.ok.inj ((RunRepository.get_of_get hg).symm.trans htx))
      rw [ha, ← hfound, onQuery_ok ha, ← hdb]
      exact ⟨hm, hexc, hserver⟩
    · rw [hx]
      refine hm.guarded hremains hx ⟨active_of_some hm.status, rfl⟩ fun a db' htx => ?_
      cases htx
      exact ⟨_, hm.status, rfl, hm.stands⟩
  | setBusy r' i ip =>
    obtain rfl : r' = r := ha
    rcases (Query.setBusy r' i ip).run_outcome e w.clock w.db with ⟨a, ha, htx⟩ | ⟨x, hx, -⟩
    · rw [ha, onQuery_ok ha]
      exact ⟨⟨hm.raised, hm.again, (status_of_nodes htx rfl).trans hm.status,
        stands_setBusy htx⟩, hexc, hserver⟩
    · rw [hx]
      exact hm.guarded hremains hx ⟨active_of_some hm.status, rfl⟩ fun a db' htx =>
        ⟨_, (status_of_nodes htx rfl).trans hm.status, rfl, stands_setBusy htx⟩
  | setRunning r' t =>
    obtain rfl : r' = r := ha
    rcases (Query.setRunning r' t).run_outcome e w.clock w.db with ⟨a, ha, htx⟩ | ⟨x, hx, -⟩
    · rw [ha, onQuery_ok ha]
      refine over_of hremains ?_
      have htraced : ρ.traced stood = true := by rw [Outcomes.traced, hm.raised, hexc]; rfl
      have hactive : ((Query.setRunning r' t).run e w.clock w.db).2.active r' = true :=
        active_of_some (status_setRunning htx)
      exact (congrArg (· || _) hactive).trans htraced.symm
    · rw [hx]
      exact hm.guarded hremains hx ⟨active_of_some hm.status, rfl⟩ fun a db' htx =>
        ⟨_, status_setRunning htx, rfl, (stands_of_runs htx rfl).trans hm.stands⟩
  | _ => exact ha.elim

theorem holds_requeueForRetry {m : Int} (h : Phase.attended.holds stood r w ρ) :
    let q := Query.requeueForRetry r m
    (Phase.attended.after (.db q) (q.run e w.clock w.db).1).holds stood r
      { w with db := (q.run e w.clock w.db).2 } (ρ.onQuery w e q) := by
  intro q
  obtain ⟨hm, hexc, hserver⟩ := h
  have hactive : w.db.active r = false := active_of_some hm.status
  rcases q.run_outcome e w.clock w.db with ⟨a, ha, htx⟩ | ⟨x, hx, -⟩
  · obtain ⟨-, hagain, hs⟩ := status_requeue htx
    rw [ha, onQuery_ok ha]
    refine ⟨⟨hm.raised, hagain.symm, ?_, (stands_of_runs htx rfl).trans hm.stands⟩, ?_, hserver⟩
    · refine hs.trans ?_
      rw [hm.status]
      split <;> rfl
    · show ρ.exc.isSome = true
      cases hx : ρ.exc with
      | none => rw [hx] at hexc; cases hexc
      | some _ => rfl
  · rw [hx]
    refine hm.guarded hserver hx ⟨hactive, rfl⟩ fun a db' htx => ?_
    obtain ⟨-, hagain, hs⟩ := status_requeue htx
    rw [hm.status] at hs
    refine ⟨if a.isSome then .queued else .provisioning, hs.trans (by split <;> rfl), ?_,
      (stands_of_runs htx rfl).trans hm.stands⟩
    show _ = ((w.db.runs.get r).any fun run => run.provisionAttempts + 1 < m)
    rw [← hagain]
    cases a <;> rfl

theorem Midway.setDownByRun (hm : Midway r w ρ again s true)
    (hserver : w.cloud.server r = ρ.remains) (hs : (s = .running || s = .queued) = again) {x : Exc}
    (hx : ((Query.setDownByRun r).run e w.clock w.db).1 = .error x) :
    Phase.guarded.holds stood r { w with db := ((Query.setDownByRun r).run e w.clock w.db).2 }
      (ρ.onQuery w e (.setDownByRun r)) := by
  refine hm.guarded hserver hx ⟨?_, rfl⟩ fun a db' htx => ?_
  · exact (active_of_some hm.status).trans (hs.trans hm.again.symm)
  · exact ⟨s, (status_of_nodes htx rfl).trans hm.status, hs.trans hm.again.symm,
      stands_setDownByRun htx⟩

theorem holds_refused {x : Exc} (hx : isCapacity x = false)
    (h : (Phase.working (some x)).holds stood r w ρ) :
    let q := Query.setDownByRun r
    ((Phase.working (some x)).after (.db q) (q.run e w.clock w.db).1).holds stood r
      { w with db := (q.run e w.clock w.db).2 } (ρ.onQuery w e q) := by
  intro q
  obtain ⟨hm, hexc, hserver⟩ := h
  have hremains : w.cloud.server r = ρ.remains :=
    hserver.trans (remains_of_left (by rw [hexc]; exact hx)).symm
  rcases q.run_outcome e w.clock w.db with ⟨a, ha, htx⟩ | ⟨y, hy, -⟩
  · rw [ha, onQuery_ok ha]
    exact ⟨⟨hm.raised, hm.again, (status_of_nodes htx rfl).trans hm.status,
      stands_setDownByRun htx⟩, (congrArg Option.isSome hexc : ρ.exc.isSome = true), hremains⟩
  · rw [hy]
    exact hm.setDownByRun hremains rfl hy

theorem holds_requeued {n : Option Nat} (h : (Phase.requeued n).holds stood r w ρ) :
    let q := Query.setDownByRun r
    ((Phase.requeued n).after (.db q) (q.run e w.clock w.db).1).holds stood r
      { w with db := (q.run e w.clock w.db).2 } (ρ.onQuery w e q) := by
  intro q
  obtain ⟨hm, hexc, hserver⟩ := h
  rcases q.run_outcome e w.clock w.db with ⟨a, ha, htx⟩ | ⟨y, hy, -⟩
  · rw [ha, onQuery_ok ha]
    have hstatus := (status_of_nodes (r := r) htx rfl).trans hm.status
    cases n with
    | none => exact ⟨⟨hm.raised, hm.again, hstatus, stands_setDownByRun htx⟩, hexc, hserver⟩
    | some n =>
      -- the run is queued, and an attempt was left
      refine over_of hserver ?_
      have htraced : ρ.traced stood = true := by
        rw [Outcomes.traced, hm.raised, hm.again]
        simp
      exact (congrArg (· || _) (active_of_some hstatus)).trans htraced.symm
  · rw [hy]
    refine hm.setDownByRun hserver ?_ hy
    cases n <;> rfl

theorem holds_downed {t : Time} {msg : Option String} (h : Phase.downed.holds stood r w ρ) :
    let q := Query.setFailed r t msg
    (Phase.downed.after (.db q) (q.run e w.clock w.db).1).holds stood r
      { w with db := (q.run e w.clock w.db).2 } (ρ.onQuery w e q) := by
  intro q
  obtain ⟨hm, hexc, hserver⟩ := h
  rcases q.run_outcome e w.clock w.db with ⟨a, ha, htx⟩ | ⟨y, hy, -⟩
  · rw [ha, onQuery_ok ha]
    refine over_of hserver ?_
    have hactive : ((q.run e w.clock w.db).2).active r = false :=
      active_of_some (status_setFailed htx)
    have hstands : ((q.run e w.clock w.db).2).stands r = false :=
      (stands_of_runs htx rfl).trans hm.stands
    have htraced : ρ.traced stood = false := by
      rw [Outcomes.traced, hm.raised, hm.again]
      simpa using hexc
    exact (congrArg₂ or hactive hstands).trans htraced.symm
  · rw [hy]
    exact hm.guarded hserver hy ⟨active_of_some hm.status, rfl⟩ fun a db' htx =>
      ⟨_, status_setFailed htx, rfl, (stands_of_runs htx rfl).trans hm.stands⟩

theorem holds_guarded (h : Phase.guarded.holds stood r w ρ) :
    let q := Query.setDownByRun r
    (Phase.guarded.after (.db q) (q.run e w.clock w.db).1).holds stood r
      { w with db := (q.run e w.clock w.db).2 } (ρ.onQuery w e q) := by
  intro q
  obtain ⟨c, hc⟩ := h
  rcases q.run_outcome e w.clock w.db with ⟨a, ha, htx⟩ | ⟨y, hy, hout⟩
  · rw [ha, onQuery_ok ha]
    have hstatus := status_of_nodes (r := r) htx rfl
    exact ⟨c, hc.raised, hstatus ▸ hc.known, (active_of_status hstatus).trans hc.active, hc.server,
      stands_setDownByRun htx⟩
  · rw [hy, onQuery_error hy, hc.raised]
    refine over_of hc.server ?_
    show (_ || _) = (Outcomes.rowLeft stood c && !q.committed e w.clock w.db ||
      Outcomes.runKept { ρ with raised := [c] ++ [(q, q.committed e w.clock w.db)] } c)
    rw [runKept_raised, ← hc.active]
    rcases hout with ⟨hcommit, hdb⟩ | ⟨hcommit, a, htx⟩
    · rw [hcommit, hdb, hc.stands, Bool.or_comm, Bool.not_false, Bool.and_true]
    · rw [hcommit, active_of_status (status_of_nodes htx rfl), stands_setDownByRun htx]
      simp

theorem holds_lowered {t : Time} {msg : Option String} (h : Phase.lowered.holds stood r w ρ) :
    let q := Query.setFailed r t msg
    (Phase.lowered.after (.db q) (q.run e w.clock w.db).1).holds stood r
      { w with db := (q.run e w.clock w.db).2 } (ρ.onQuery w e q) := by
  intro q
  obtain ⟨c, hc⟩ := h
  have hcommitted : ∀ a, q.tx e.pick w.clock w.db = .ok (a, (q.run e w.clock w.db).2) →
      (((q.run e w.clock w.db).2).active r || ((q.run e w.clock w.db).2).stands r) = false :=
    fun a htx => by
      rw [active_of_some (status_setFailed htx), stands_of_runs htx rfl, hc.stands]
      rfl
  rcases q.run_outcome e w.clock w.db with ⟨a, ha, htx⟩ | ⟨y, hy, hout⟩
  · rw [ha, onQuery_ok ha]
    refine over_of hc.server ((hcommitted a htx).trans ?_)
    show false = ρ.traced stood
    rw [Outcomes.traced, hc.raised]
  · rw [hy, onQuery_error hy, hc.raised]
    refine over_of hc.server ?_
    show _ = (Outcomes.runKept { ρ with raised := [c] ++ [(q, q.committed e w.clock w.db)] } c &&
      !q.committed e w.clock w.db)
    rw [runKept_raised]
    rcases hout with ⟨hcommit, hdb⟩ | ⟨hcommit, a, htx⟩
    · rw [hcommit, hdb, hc.stands, hc.active]
      simp
    · rw [hcommit, hcommitted a htx]
      simp

theorem Phase.holds_query {γ : Phase} (ha : γ.allows r (.db q)) (h : γ.holds stood r w ρ) :
    (γ.after (.db q) (q.run e w.clock w.db).1).holds stood r
      { w with db := (q.run e w.clock w.db).2 } (ρ.onQuery w e q) := by
  cases γ with
  | fresh =>
    cases q with
    | createProvisioning r' g =>
      obtain rfl : r' = r := ha
      exact holds_createProvisioning h
    | _ => exact ha.elim
  | working x =>
    cases x with
    | none => exact holds_working ha h
    | some x =>
      cases q with
      | setDownByRun r' =>
        obtain ⟨rfl, hx⟩ := ha
        exact holds_refused hx h
      | _ => exact ha.elim
  | attended =>
    cases q with
    | requeueForRetry r' m =>
      obtain rfl : r' = r := ha
      exact holds_requeueForRetry h
    | _ => exact ha.elim
  | requeued n =>
    cases q with
    | setDownByRun r' =>
      obtain rfl : r' = r := ha
      exact holds_requeued h
    | _ => exact ha.elim
  | downed =>
    cases q with
    | setFailed r' t msg =>
      obtain rfl : r' = r := ha
      exact holds_downed h
    | _ => exact ha.elim
  | guarded =>
    cases q with
    | setDownByRun r' =>
      obtain rfl : r' = r := ha
      exact holds_guarded h
    | _ => exact ha.elim
  | lowered =>
    cases q with
    | setFailed r' t msg =>
      obtain rfl : r' = r := ha
      exact holds_lowered h
    | _ => exact ha.elim
  | closed => exact ha.elim
  | absent => exact h.elim

theorem Cloud.server_destroy (readFile : String → Option String) (c : Cloud) :
    (c.run readFile e (.destroy r)).2.server r = (c.server r && c.spares r e) := by
  simp only [run, Env.guard, terraform, spares]
  cases e.fault <;> cases c.workspace r <;> cases e.tfOk <;> simp [setServer]

theorem Cloud.server_other (readFile : String → Option String) (c : Cloud) {q : TfCall}
    (ha : ∀ r', q ≠ .apply r') (hd : ∀ r', q ≠ .destroy r') :
    (c.run readFile e q).2.server = c.server := by
  let Same (c' : Cloud) : Prop := c'.server = c.server
  have hsame : Same c := rfl
  cases q with
  | apply r' => exact absurd rfl (ha r')
  | destroy r' => exact absurd rfl (hd r')
  | deleteRemoteState r' =>
    simp only [run]
    split <;> rfl
  | init r' => exact Env.guard_state Same hsame (terraform_state Same hsame hsame hsame)
  | output r' =>
    refine Env.guard_state Same hsame (terraform_state Same hsame ?_ hsame)
    split <;> rfl
  | _ => exact Env.guard_state Same hsame rfl

theorem Phase.holds_tf {γ : Phase} {q : TfCall} (ha : γ.allows r (.tf q))
    (h : γ.holds stood r w ρ) :
    let out := w.cloud.run cfg.readFile e q
    (γ.after (.tf q) out.1).holds stood r { w with cloud := out.2 } (ρ.after cfg r w e (.tf q)) := by
  intro out
  cases γ with
  | working x =>
    obtain ⟨hm, hexc, hserver⟩ := h
    cases x with
    | none =>
      have hexc' : (ρ.after cfg r w e (.tf q)).exc = q.exc out.1 := by
        show ρ.exc.or (q.exc out.1) = q.exc out.1
        rw [hexc]
        rfl
      refine ⟨⟨hm.raised, hm.again, hm.status, hm.stands⟩, hexc', ?_⟩
      cases q with
      | apply r' => rfl
      | destroy r' => exact ha.elim
      | _ => exact (congrFun (Cloud.server_other cfg.readFile w.cloud (by nofun) (by nofun)) r).trans hserver
    | some x =>
      cases q with
      | destroy r' =>
        obtain ⟨rfl, hx⟩ := ha
        have hexc' : (ρ.after cfg r' w e (.tf (.destroy r'))).exc = some x := by
          show ρ.exc.or _ = some x
          rw [hexc]
          rfl
        refine ⟨⟨hm.raised, hm.again, hm.status, hm.stands⟩, by rw [hexc']; exact hx, ?_⟩
        refine (Cloud.server_destroy cfg.readFile w.cloud).trans ?_
        rw [Outcomes.remains, hexc', Option.any_some, hx, hserver]
        simp [Outcomes.after]
      | _ => exact ha.elim
  | attended =>
    obtain ⟨hm, hexc, hserver⟩ := h
    have hkept : ∀ x, ρ.exc.or x = ρ.exc := fun x => by
      cases hx : ρ.exc with
      | none => rw [hx] at hexc; cases hexc
      | some _ => rfl
    cases q with
    | deleteRemoteState r' | rmtree r' =>
      refine ⟨⟨hm.raised, hm.again, hm.status, hm.stands⟩, ?_, ?_⟩
      · exact (congrArg (Option.any isCapacity) (hkept _)).trans hexc
      · refine (congrFun (Cloud.server_other cfg.readFile w.cloud (by nofun) (by nofun)) r).trans ?_
        rw [hserver, Outcomes.remains, Outcomes.remains]
        simp [Outcomes.after, hkept]
    | _ => exact ha.elim
  | absent => exact h.elim
  | fresh | requeued | downed | guarded | lowered | closed => exact ha.elim

theorem Phase.holds_congr {γ : Phase} {w' : World} (h : γ.holds stood r w ρ)
    (hs : w'.db.status r = w.db.status r) (hn : w'.db.nodesOf r = w.db.nodesOf r)
    (hv : w'.cloud.server r = w.cloud.server r) : γ.holds stood r w' ρ := by
  have hstands := stands_of_nodesOf hn
  have hmid : ∀ {again s stands}, Midway r w ρ again s stands → Midway r w' ρ again s stands :=
    fun hm => ⟨hm.raised, hm.again, hs.trans hm.status, hstands.trans hm.stands⟩
  have hguard : ∀ {c stands}, Guarded r w ρ c stands → Guarded r w' ρ c stands := fun hc =>
    ⟨hc.raised, hs.symm ▸ hc.known, (active_of_status hs).trans hc.active, hv.trans hc.server,
      hstands.trans hc.stands⟩
  cases γ with
  | fresh | working | attended | requeued | downed => exact ⟨hmid h.1, h.2.1, hv.trans h.2.2⟩
  | guarded | lowered =>
    obtain ⟨c, hc⟩ := h
    exact ⟨c, hguard hc⟩
  | closed =>
    show Kept r w' ↔ _
    rw [Kept, hs, hn, hv]
    exact h
  | absent => exact h.elim

theorem Phase.holds_call {γ : Phase} {op : Op} {i : Nat} (ha : γ.allows r op)
    (h : γ.holds stood r w ρ) :
    let out := World.call cfg i e w op
    (γ.after op out.1).holds stood r out.2 (ρ.after cfg r w e op) := by
  cases op with
  | db q => exact holds_query ha h
  | tf q => exact holds_tf ha h
  | workspaceExists r' =>
    cases γ with
    | working x =>
      cases x with
      | none => exact ha.elim
      | some x =>
        obtain ⟨rfl, hx⟩ := ha
        obtain ⟨hm, hexc, hserver⟩ := h
        show (Phase.after (.working (some x)) (.workspaceExists r')
          (w.cloud.workspace r')).holds stood r' w _
        cases hw : w.cloud.workspace r' with
        | true => exact ⟨⟨hm.raised, hm.again, hm.status, hm.stands⟩, hexc, hserver⟩
        | false =>
          -- nothing is destroyed
          refine ⟨⟨hm.raised, hm.again, hm.status, hm.stands⟩, ?_, hserver.trans ?_⟩
          · exact (congrArg (Option.any isCapacity) hexc).trans hx
          · simp [Outcomes.remains, Outcomes.after, hw]
    | absent => exact h.elim
    | fresh | attended | requeued | downed | guarded | lowered | closed => exact ha.elim
  | enter job r' =>
    have hnext : γ.holds stood r (World.call cfg i e w (.enter job r')).2 ρ :=
      Phase.holds_congr h rfl rfl rfl
    cases γ with
    | working x => cases x <;> exact hnext
    | _ => exact hnext
  | leave job r' =>
    have hnext : γ.holds stood r (World.call cfg i e w (.leave job r')).2 ρ :=
      Phase.holds_congr h rfl rfl rfl
    cases γ with
    | working x => cases x <;> exact hnext
    | _ => exact hnext
  | now =>
    cases γ with
    | working x => cases x <;> exact h
    | _ => exact h
  | _ =>
    cases γ with
    | working x => cases x <;> exact ha.elim
    | absent => exact h.elim
    | fresh | attended | requeued | downed | guarded | lowered | closed => exact ha.elim

end

/-! ## The whole task -/

/-- Task `i` is on its course, and `ρ` are its outcomes so far. -/
def OnCourse (i : Nat) (r : RunId) (stood : Bool) (p : System cfg) (ρ : Outcomes) : Prop :=
  ∃ t γ, p.tasks[i]? = some t ∧ t.prog.Follows (course r) (fun γ _ => γ.Final) γ ∧
    γ.holds stood r p.world ρ

theorem outcomes_run {i : Nat} {r : RunId} {p q : System cfg} {n : (orchestrator cfg).Name}
    {op : sig.Op} {next : sig.Resp op → Prog sig Exc Unit} {e : (orchestrator cfg).Env}
    (ht : p.tasks[i]? = some ⟨n, .call op next⟩) (ρ : Outcomes) :
    outcomes i r p (.run i e) q ρ =
      ρ.after cfg r { p.world with clock := p.world.clock + e.elapsed } e op := by
  simp only [outcomes, if_pos, System.calls_run ht]

theorem onCourse_step {i : Nat} {r : RunId} {stood : Bool} {p q : System cfg} {l : Step cfg}
    {ρ : Outcomes} (h : OnCourse i r stood p ρ) (hl : Alone i r p l) (hs : p.step l = some q) :
    OnCourse i r stood q (outcomes i r p l q ρ) := by
  obtain ⟨t, γ, ht, hf, hγ⟩ := h
  rcases Pool.step_of_task hs ht with ⟨e, n, op, next, rfl, rfl, rfl⟩ | ⟨j, e, hj, rfl, hkept⟩ |
    ⟨n, rfl, hkept, hworld⟩ | ⟨e, rfl⟩
  · refine ⟨_, _, Pool.getElem?_after_self ht, hf.2 _, ?_⟩
    rw [outcomes_run ht]
    exact Phase.holds_call hf.1 (Phase.holds_congr hγ rfl rfl rfl)
  -- the others leave the run alone, and none of their calls is the task's
  · obtain ⟨h₁, h₂, h₃⟩ := hl.resolve_left hj q hs
    have hsame : outcomes i r p (.run j e) q ρ = ρ := if_neg hj
    rw [hsame]
    exact ⟨t, γ, hkept, hf, Phase.holds_congr hγ h₁ h₂ h₃⟩
  · exact ⟨t, γ, hkept, hf,
      Phase.holds_congr hγ (by rw [hworld]) (by rw [hworld]) (by rw [hworld])⟩
  · exact hl.elim

def outcomesOf (i : Nat) (r : RunId) (p : System cfg) (ls : List (Step cfg)) : Outcomes :=
  p.observe (outcomes i r) { left := p.world.cloud.server r } ls

/-- When `handle_queued_run` has ended, with nobody else at work on the run, a server that is left
is in use, kept for the next attempt or found through its row exactly if its outcomes are traceable;
then a failed run with its node down has no server. -/
theorem kept_iff_traceable {p₀ p : System cfg} {ls : List (Step cfg)} {i : Nat} {r : RunId}
    {g : GpuType} (h : p₀.exec ls = some p)
    (hstart : p₀.tasks[i]? =
      some (Coroutine.Task.spawn (M := orchestrator cfg) (.handleQueuedRun r g)))
    (hrun : p₀.world.db.status r = some .provisioning) (halone : p₀.Obeys (Alone i r) ls)
    (hend : p.Ended i) :
    (Kept r p.world ↔ (outcomesOf i r p₀ ls).Traceable (p₀.world.db.stands r)) ∧
    ((outcomesOf i r p₀ ls).Traceable (p₀.world.db.stands r) →
      p.world.db.status r = some .failed → (∀ n ∈ p.world.db.nodesOf r, n.status = .down) →
      p.world.cloud.server r = false) := by
  have hcourse : OnCourse i r (p₀.world.db.stands r) p (outcomesOf i r p₀ ls) :=
    Pool.observe_invariant (outcomes i r) (I := OnCourse i r (p₀.world.db.stands r)) h halone
      ⟨_, .fresh, hstart, handleQueuedRun_course cfg r g, ⟨rfl, rfl, hrun, rfl⟩, rfl, rfl⟩
      fun _ _ _ _ _ hI hl hs => onCourse_step hI hl hs
  obtain ⟨t, γ, ht, hf, hγ⟩ := hcourse
  obtain ⟨t', ht', hended⟩ := hend
  cases ht.symm.trans ht'
  have hkept : Kept r p.world ↔
      (outcomesOf i r p₀ ls).Traceable (p₀.world.db.stands r) := by
    obtain ⟨_, rfl | rfl⟩ := hf.of_ended hended
    · exact hγ
    · exact hγ.elim
  refine ⟨hkept, fun hc hs hd => Bool.eq_false_iff.2 fun hv => ?_⟩
  rcases hkept.2 hc hv with h | h | ⟨n, hn, hnd⟩
  · cases hs.symm.trans h
  · cases hs.symm.trans h
  · exact hnd (hd n hn)

instance Kept.decidable (r : RunId) (w : World) : Decidable (Kept r w) :=
  inferInstanceAs (Decidable (_ → _ ∨ _ ∨ ∃ n ∈ w.db.nodesOf r, _))

instance Outcomes.Traceable.decidable (stood : Bool) (ρ : Outcomes) :
    Decidable (ρ.Traceable stood) := inferInstanceAs (Decidable (_ → _))

instance Alone.decidable (i : Nat) (r : RunId) (p : System cfg) :
    (l : Step cfg) → Decidable (Alone i r p l)
  | .crash _ => isFalse id
  | .run j e => inferInstanceAs (Decidable (j = i ∨ ∀ q ∈ p.step (.run j e), _))
  | .arrive _ => isTrue trivial

/-- The steps of task 3 from the claim on, when `apply` leaves a server and exits with an error. -/
def Sample.halfProvisioned : List (Step config) :=
  steps 3 7 ++ .run 3 { tfOk := false, stderr := "dial tcp: timeout", serverLeft := true } ::
    steps 3 4

/-- The error is that of an exhausted stock; the destroy of the cleanup goes through, and
`requeue_for_retry` fails. -/
def Sample.outOfStock : List (Step config) :=
  steps 3 7 ++ .run 3 { tfOk := false, stderr := "out of stock", serverLeft := true } ::
    steps 3 7 ++ .run 3 { fault := .before } :: steps 3 3

theorem kept_of_outOfStock :
    let p := (Sample.start.play (Sample.claimed 7)).play Sample.outOfStock
    p.world.db.status 7 = some .failed ∧ p.world.cloud.server 7 = false ∧ Kept 7 p.world := by
  intro p
  have hexec : (Sample.start.play (Sample.claimed 7)).exec Sample.outOfStock = some p :=
    Pool.exec_play _ _ (by decide +kernel)
  have htraceable : (outcomesOf 3 7 (Sample.start.play (Sample.claimed 7))
      Sample.outOfStock).Traceable ((Sample.start.play (Sample.claimed 7)).world.db.stands 7) := by
    decide +kernel
  have hfailed : p.world.db.status 7 = some .failed := by decide +kernel
  have hdown : ∀ n ∈ p.world.db.nodesOf 7, n.status = .down := by decide +kernel
  have hended : p.Ended 3 := by decide +kernel
  have halone : (Sample.start.play (Sample.claimed 7)).Obeys (Alone 3 7) Sample.outOfStock := by
    decide +kernel
  clear_value p
  obtain ⟨hkept, hgone⟩ := kept_iff_traceable (g := .L40S) hexec rfl (by decide) halone hended
  exact ⟨hfailed, hgone htraceable hfailed hdown, hkept.2 htraceable⟩

/-- `apply` exits with an error that is none of the capacity errors, after it made the server. -/
theorem not_kept : ¬ ∀ (p₀ p : System Sample.config) (ls : List (Step Sample.config)) (i : Nat)
    (r : RunId) (g : GpuType), System.Reachable Sample.start p₀ → p₀.exec ls = some p →
    p₀.tasks[i]? =
      some (Coroutine.Task.spawn (M := orchestrator Sample.config) (.handleQueuedRun r g)) →
    p₀.Obeys (Alone i r) ls → p.Ended i → Kept r p.world := by
  intro h
  have hp₀ : (Sample.start.exec (Sample.claimed 7)).isSome := by decide
  have hp : ((Sample.start.play (Sample.claimed 7)).exec Sample.halfProvisioned).isSome := by decide
  have hkept := h _ _ _ 3 7 .L40S (Pool.reach_play _ _ hp₀) (Pool.exec_play _ _ hp) rfl (by decide)
    (by decide)
  exact absurd hkept (by decide)

end GrillPlatform
