import GrillPlatform.Footprint

/-! What one committed call does to the table `nodes`, and the rows of one run. A row is created
under `node-<run_id>` and found by `current_run_id`; two rows of a run appear when the first has
been renamed meanwhile. -/

namespace GrillPlatform
open Coroutine NodeRepository
variable {cfg : Config}

/-- The writes to `nodes`, by the call that makes them: the row with the key gives way to the
node. -/
inductive NodeWrite (db : Db) : Query → NodeId → Node → Prop
  | create {node : Node} (h : ∀ x ∈ db.nodes.rows, x.id ≠ node.id) :
      NodeWrite db (.nodeCreate node) node.id node
  | save {node : Node} : NodeWrite db (.nodeSave node) node.id node
  | provisioning {r : RunId} {g : GpuType} :
      NodeWrite db (.createProvisioning r g) (.ofRun r) ⟨.ofRun r, g, .provisioning, none, some r⟩
  | busy {r : RunId} {i : NodeId} {ip : String} {node : Node} (h : db.nodesOf r = [node]) :
      NodeWrite db (.setBusy r i ip) node.id
        { node with id := i, ipAddress := some ip, status := .busy }
  | down {r : RunId} {node : Node} (h : db.nodesOf r = [node]) :
      NodeWrite db (.setDownByRun r) node.id { node with status := .down }

theorem mem_of_nodesOf {db : Db} {r : RunId} {node : Node} (h : db.nodesOf r = [node]) :
    node ∈ db.nodes.rows ∧ node.currentRunId = some r :=
  Db.mem_nodesOf.1 (h ▸ List.mem_singleton_self node)

/-- A repository call commits nothing on `nodes` but these writes. -/
theorem Query.nodeStep {q : Query} {pick : List RunId} {now : Time} {db db' : Db} {a : q.Resp}
    (h : q.tx pick now db = .ok (a, db')) :
    db'.nodes = db.nodes ∨ ∃ k node, NodeWrite db q k node ∧
      ∀ x, x ∈ db'.nodes.rows ↔ x = node ∨ (x ∈ db.nodes.rows ∧ x.id ≠ k) := by
  cases q with
  | nodeCreate node =>
    simp only [tx, NodeRepository.create] at h
    split at h
    · cases h
    · rename_i nodes hi
      cases h
      obtain ⟨hr, hk⟩ := Table.rows_insert hi
      have hne : ∀ x ∈ db.nodes.rows, x.id ≠ node.id := fun x hx e =>
        hk (List.mem_map.2 ⟨x, hx, e⟩)
      refine .inr ⟨_, _, .create hne, fun x => ?_⟩
      rw [hr, List.mem_append, List.mem_singleton, or_comm]
      exact or_congr Iff.rfl ⟨fun hx => ⟨hx, hne x hx⟩, And.left⟩
  | nodeSave node =>
    cases h
    exact .inr ⟨_, _, .save, fun x => Table.mem_put⟩
  | createProvisioning r g =>
    cases (createProvisioning_ok r g db).symm.trans h
    exact .inr ⟨_, _, .provisioning, fun x => Table.mem_put⟩
  | setBusy r i ip =>
    simp only [tx, NodeRepository.setBusy] at h
    split at h
    · cases h
    · rename_i node hn
      split at h
      · cases h
      · rename_i nodes hr
        cases h
        have hn := scalarOne_ok hn
        exact .inr ⟨_, _, .busy hn, fun x => Table.mem_replace hr (mem_of_nodesOf hn).1 rfl⟩
  | setDownByRun r =>
    simp only [tx, NodeRepository.setDownByRun] at h
    split at h
    · cases h
    · cases h; exact .inl rfl
    · rename_i node hn
      cases h
      exact .inr ⟨_, _, .down (scalarOneOrNone_some hn), fun x => Table.mem_put⟩
  | _ => exact .inl (frame_runs h rfl).1

def OneRow (db : Db) : Prop := ∀ r, (db.nodesOf r).length ≤ 1

theorem oneRow_iff {db : Db} : OneRow db ↔ ∀ r, ∀ x ∈ db.nodes.rows, ∀ y ∈ db.nodes.rows,
    x.currentRunId = some r → y.currentRunId = some r → x = y := by
  constructor
  · intro h r x hx y hy hxr hyr
    have hx := Db.mem_nodesOf.2 ⟨hx, hxr⟩
    have hy := Db.mem_nodesOf.2 ⟨hy, hyr⟩
    match hl : db.nodesOf r with
    | [] => rw [hl] at hx; cases hx
    | [z] =>
      rw [hl, List.mem_singleton] at hx hy
      rw [hx, hy]
    | _ :: _ :: _ =>
      have := h r
      simp [hl] at this
  · intro h r
    have hnd : (db.nodesOf r).Nodup := (List.Nodup.of_map _ db.nodes.nodup).filter _
    match hl : db.nodesOf r with
    | [] | [_] => simp
    | x :: y :: _ =>
      have hx := Db.mem_nodesOf.1 (hl ▸ List.mem_cons_self : x ∈ db.nodesOf r)
      have hy := Db.mem_nodesOf.1 (hl ▸ by simp : y ∈ db.nodesOf r)
      rw [hl, h r x hx.1 y hy.1 hx.2 hy.2] at hnd
      simp at hnd

/-- The call finds no row of the run under another key than the one it writes. -/
def Query.tidy (db : Db) : Query → Prop
  | .createProvisioning r _ => ∀ x ∈ db.nodesOf r, x.id = .ofRun r
  | .nodeSave node => ∀ r ∈ node.currentRunId, ∀ x ∈ db.nodesOf r, x.id = node.id
  | _ => True

instance Query.decidableTidy (db : Db) : (c : Query) → Decidable (c.tidy db)
  | .createProvisioning r _ => inferInstanceAs (Decidable (∀ x ∈ db.nodesOf r, _))
  | .nodeSave node => inferInstanceAs (Decidable (∀ r ∈ node.currentRunId, _))
  | .runGet _ | .claimQueued .. | .countLiveByType | .hasActiveRun .. | .runCreate _
  | .completeRun .. | .failRun .. | .setRunning .. | .setLogsUrl .. | .setPhase ..
  | .claimRunningTimedOut _ | .getOrphanedProvisioning | .claimProvisioningTimedOut _
  | .requeueForRetry .. | .setFailed .. | .nodeGet _ | .nodeCreate _ | .setBusy .. | .getLeaked
  | .setDownByRun _ => isTrue trivial

def Tidy : System cfg → Step cfg → Prop := System.Meets fun db c => c.tidy db

instance Tidy.decidable (p : System cfg) (l : Step cfg) : Decidable (Tidy p l) :=
  inferInstanceAs (Decidable (System.Meets _ p l))

theorem NodeWrite.alone {db : Db} {q : Query} {k : NodeId} {node : Node}
    (h : NodeWrite db q k node) (ht : q.tidy db)
    (hq : q.regular cfg) {r : RunId}
    (hr : node.currentRunId = some r) {x : Node} (hx : x ∈ db.nodesOf r) : x.id = k := by
  cases h with
  | create => cases hq.symm.trans hr
  | save => exact ht r hr x hx
  | provisioning =>
    cases hr
    exact ht x hx
  | busy hn | down hn =>
    cases (mem_of_nodesOf hn).2.symm.trans hr
    rw [hn, List.mem_singleton] at hx
    rw [hx]

theorem oneRow_of_tidy {q : Query} {pick : List RunId} {now : Time} {db db' : Db} {a : q.Resp}
    (h : q.tx pick now db = .ok (a, db')) (ho : OneRow db) (ht : q.tidy db)
    (hq : q.regular cfg) : OneRow db' := by
  rcases q.nodeStep h with he | ⟨k, node, hw, hm⟩
  · unfold OneRow Db.nodesOf
    rw [he]
    exact ho
  · rw [oneRow_iff] at ho ⊢
    intro r x hx y hy hxr hyr
    rcases (hm x).1 hx with rfl | ⟨hx, hxk⟩ <;> obtain rfl | ⟨hy, hyk⟩ := (hm y).1 hy
    · rfl
    · exact absurd (hw.alone ht hq hxr (Db.mem_nodesOf.2 ⟨hy, hyr⟩)) hyk
    · exact absurd (hw.alone ht hq hyr (Db.mem_nodesOf.2 ⟨hx, hxr⟩)) hxk
    · exact ho r x hx y hy hxr hyr

theorem id_of_oneRow_put {db : Db} {node : Node} {r : RunId}
    (ho : OneRow { db with nodes := db.nodes.put node }) (hr : node.currentRunId = some r)
    {x : Node} (hx : x ∈ db.nodesOf r) : x.id = node.id := by
  by_contra hne
  obtain ⟨hx, hxr⟩ := Db.mem_nodesOf.1 hx
  exact hne (congrArg Node.id (oneRow_iff.1 ho r x (Table.mem_put.2 (.inr ⟨hx, hne⟩)) node
    (Table.mem_put.2 (.inl rfl)) hxr hr))

theorem tidy_of_oneRow {q : Query} {pick : List RunId} {now : Time} {db : Db}
    (h : ∀ a db', q.tx pick now db = .ok (a, db') → OneRow db') : q.tidy db := by
  cases q with
  | createProvisioning r g =>
    exact fun x hx => id_of_oneRow_put (h _ _ (createProvisioning_ok r g db)) rfl hx
  | nodeSave node => exact fun r hr x hx => id_of_oneRow_put (h _ _ rfl) hr hx
  | _ => trivial

theorem oneRow_step_iff {w : World} {C : System cfg → Step cfg → Prop} {p q : System cfg}
    {l : Step cfg} (hp : Pool.Reach C (System.start cfg w) p) (ho : OneRow p.world.db)
    (hs : p.step l = some q) : OneRow q.world.db ↔ Tidy p l :=
  System.rel_iff_meets (R := fun _ db => OneRow db) hs ho fun _ _ hc _ =>
    ⟨fun ht _ _ ha => oneRow_of_tidy ha ho ht (System.regular_of_queries hp hc), tidy_of_oneRow⟩

theorem scalarOneOrNone_ne {α : Type} {l : List α} (h : l.length ≤ 1) :
    scalarOneOrNone l ≠ .error .multipleResultsFound := by
  match l with
  | [] | [_] => simp [scalarOneOrNone]
  | _ :: _ :: _ => simp at h

theorem scalarOne_ne {α : Type} {l : List α} (h : l.length ≤ 1) :
    scalarOne l ≠ .error .multipleResultsFound := by
  match l with
  | [] | [_] => simp [scalarOne]
  | _ :: _ :: _ => simp at h

theorem OneRow.lookups {db : Db} (h : OneRow db) (r : RunId) :
    (∀ i ip, setBusy r i ip db ≠ .error .multipleResultsFound) ∧
    setDownByRun r db ≠ .error .multipleResultsFound ∧
    getByRun r db ≠ .error .multipleResultsFound := by
  refine ⟨fun i ip he => ?_, fun he => ?_, fun he => ?_⟩
  · unfold setBusy at he
    split at he
    · rename_i x hx
      cases he
      exact scalarOne_ne (h r) hx
    · split at he <;> cases he
  · unfold setDownByRun at he
    split at he
    · rename_i x hx
      cases he
      exact scalarOneOrNone_ne (h r) hx
    · cases he
    · cases he
  · unfold getByRun at he
    split at he
    · rename_i x hx
      cases he
      exact scalarOneOrNone_ne (h r) hx
    · cases he

/-- As long as every step is tidy, each run has one row at most, through crashes and restarts; a
step that is not tidy breaks this at once. -/
theorem oneRow_iff_tidy {w : World} {p : System cfg} (hw : OneRow w.db)
    (h : Pool.Reach Tidy (System.start cfg w) p) :
    OneRow p.world.db ∧ (∀ l q, p.step l = some q → (OneRow q.world.db ↔ Tidy p l)) ∧
    ∀ r, (∀ i ip, setBusy r i ip p.world.db ≠ .error .multipleResultsFound) ∧
      setDownByRun r p.world.db ≠ .error .multipleResultsFound ∧
      getByRun r p.world.db ≠ .error .multipleResultsFound := by
  have ho : OneRow p.world.db := by
    induction h with
    | init => exact hw
    | step l hp hc hs ih => exact (oneRow_step_iff hp ih hs).2 hc
  exact ⟨ho, fun _ _ => oneRow_step_iff h ho, ho.lookups⟩

/-- The second attempt, task 5, has taken its row. -/
theorem oneRow_of_requeued :
    let ls := Sample.requeued 7 ++ Sample.steps 4 1 ++ Sample.steps 5 1
    let p := Sample.start.play ls
    (p.world.db.runs.get 7).map Run.provisionAttempts = some 1 ∧
    (p.world.db.nodesOf 7).map Node.status = [.provisioning] ∧
    OneRow p.world.db ∧ NodeRepository.setDownByRun 7 p.world.db ≠ .error .multipleResultsFound :=
  have h := oneRow_iff_tidy (w := Sample.world) (fun _ => Nat.zero_le 1)
    (Pool.reach_play_of_obeys Sample.start
      (Sample.requeued 7 ++ Sample.steps 4 1 ++ Sample.steps 5 1) (by decide) (by decide))
  ⟨by decide, by decide, h.1, (h.2.2 7).2.1⟩

/-- The process stops between `set_busy` and `set_running`, and starts again: recovery tears the
server down and requeues the run, and the next tick claims it. -/
def Sample.resumed (r : RunId) : List (Step config) :=
  applied r ++ .run 3 { output := some (.named "gpu-1", "10.0.0.1") } :: steps 3 2 ++
    .crash {} :: steps 0 6 ++ steps 1 8 ++ steps 2 4

/-- The second attempt adds a second row, for the first is no longer under `node-<run_id>`. -/
theorem not_oneRow : ¬ ∀ p : System Sample.config, System.Reachable Sample.start p →
    OneRow p.world.db := by
  intro h
  have hp : (Sample.start.exec (Sample.resumed 7 ++ [.run 3 {}])).isSome := by decide
  exact absurd (h _ (Pool.reach_play _ _ hp) 7) (by decide)

end GrillPlatform
