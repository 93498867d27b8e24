import GrillPlatform.NodeRows

/-! `NodeService.deregister` reads a node in one transaction and merges the whole of it in another.
It changes the status and nothing else exactly when the row is still there as it was read. -/

namespace GrillPlatform
open Coroutine
variable {cfg : Config}

/-- What deregistering a node is to do. -/
def deregistered (id : NodeId) (db : Db) : Db :=
  { db with nodes := db.nodes.update id (fun x => { x with status := .down }) fun _ => rfl }

/-- The row of the node is still as the node, the status aside. -/
def Intact (node : Node) (db : Db) : Prop :=
  ∃ s, db.nodes.get node.id = some { node with status := s }

/-- The node was read at some earlier point of the execution. -/
def Found (p₀ p : System cfg) (node : Node) : Prop :=
  ∃ p', System.Reachable p₀ p' ∧ System.Reachable p' p ∧
    p'.world.db.nodes.get node.id = some node

theorem Table.ext_rows {ρ κ : Type} {key : ρ → κ} {t u : Table key} (h : t.rows = u.rows) :
    t = u := by
  cases t
  cases u
  cases h
  rfl

/-- The merge changes the status and nothing else exactly when the row has been kept. -/
theorem save_iff_intact {node : Node} {db db' : Db}
    (h : db' = { db with nodes := db.nodes.put { node with status := .down } }) :
    ((db.nodes.get node.id).isSome ∧ db' = deregistered node.id db) ↔ Intact node db := by
  subst h
  constructor
  · rintro ⟨hsome, he⟩
    obtain ⟨x, hx⟩ := Option.isSome_iff_exists.1 hsome
    have hnodes : db.nodes.put { node with status := .down } =
        db.nodes.update node.id (fun x => { x with status := .down }) fun _ => rfl :=
      congrArg Db.nodes he
    have hput : (db.nodes.put { node with status := .down }).get node.id =
        some { node with status := .down } :=
      Table.get_eq_some.2 ⟨Table.mem_put.2 (.inl rfl), rfl⟩
    rw [hnodes, Table.get_update, if_pos rfl, hx, Option.map_some, Option.some.injEq] at hput
    refine ⟨x.status, hx.trans (congrArg some ?_)⟩
    calc x = { ({ x with status := .down } : Node) with status := x.status } := rfl
      _ = { ({ node with status := .down } : Node) with status := x.status } := by rw [hput]
  · rintro ⟨s, hs⟩
    refine ⟨by rw [hs]; rfl, ?_⟩
    obtain ⟨hmem, -⟩ := Table.get_eq_some.1 hs
    have hrows : (db.nodes.put { node with status := .down }).rows = (db.nodes.update node.id
        (fun x => { x with status := .down }) fun _ => rfl).rows := by
      unfold Table.put
      rw [dif_pos (List.mem_map.2 ⟨_, hmem, rfl⟩), Table.update, Table.rows_modify]
      refine List.map_congr_left fun x hx => ?_
      by_cases hid : x.id = node.id
      · rw [if_pos hid, if_pos hid, Table.eq_of_key hx hmem hid]
      · rw [if_neg hid, if_neg hid]
    unfold deregistered
    rw [Table.ext_rows hrows]

/-- The call leaves the row of the node as it is, the status aside, if it is still as the node. -/
def Query.spares (node : Node) (db : Db) : Query → Prop
  | .nodeSave other => other.id = node.id → { node with status := other.status } = other
  | .createProvisioning r g => node.id = .ofRun r →
      node.gpuType = g ∧ node.ipAddress = none ∧ node.currentRunId = some r
  | .setBusy r i ip => ∀ x ∈ db.nodesOf r, x.id = node.id → i = node.id ∧ node.ipAddress = some ip
  | _ => True

instance Query.decidableSpares (node : Node) (db : Db) : (c : Query) → Decidable (c.spares node db)
  | .nodeSave _ | .createProvisioning .. => inferInstanceAs (Decidable (_ → _))
  | .setBusy r _ _ => inferInstanceAs (Decidable (∀ x ∈ db.nodesOf r, _))
  | .runGet _ | .claimQueued .. | .countLiveByType | .hasActiveRun .. | .runCreate _
  | .completeRun .. | .failRun .. | .setRunning .. | .setLogsUrl .. | .setPhase ..
  | .claimRunningTimedOut _ | .getOrphanedProvisioning | .claimProvisioningTimedOut _
  | .requeueForRetry .. | .setFailed .. | .nodeGet _ | .nodeCreate _ | .getLeaked
  | .setDownByRun _ => isTrue trivial

theorem Intact.of_mem {node x : Node} {db : Db} {s : NodeStatus} (hm : x ∈ db.nodes.rows)
    (hx : x = { node with status := s }) : Intact node db :=
  ⟨s, Table.get_eq_some.2 ⟨hx ▸ hm, rfl⟩⟩

theorem NodeWrite.spared {node new : Node} {db : Db} {q : Query} {k : NodeId}
    (h : NodeWrite db q k new) (hid : node.id = k) (hk : Intact node db) (hq : q.spares node db) :
    ∃ s, new = { node with status := s } := by
  obtain ⟨s, hs⟩ := hk
  obtain ⟨hmem, -⟩ := Table.get_eq_some.1 hs
  cases h with
  | create hfresh => exact absurd hid (hfresh { node with status := s } hmem)
  | save => exact ⟨new.status, (hq hid.symm).symm⟩
  | provisioning =>
    obtain ⟨hgpu, hip, hrun⟩ := hq hid
    refine ⟨.provisioning, ?_⟩
    rw [← hgpu, ← hip, ← hrun, ← hid]
  | @busy r i ip x hx =>
    obtain ⟨hi, hip⟩ := hq x (hx ▸ List.mem_singleton_self x) hid.symm
    refine ⟨.busy, ?_⟩
    rw [Table.eq_of_key (mem_of_nodesOf hx).1 hmem hid.symm, hi, ← hip]
  | @down r x hx =>
    refine ⟨.down, ?_⟩
    rw [Table.eq_of_key (mem_of_nodesOf hx).1 hmem hid.symm]

theorem intact_of_spares {node : Node} {q : Query} {pick : List RunId} {now : Time} {db db' : Db}
    {a : q.Resp} (h : q.tx pick now db = .ok (a, db')) (hk : Intact node db)
    (hq : q.spares node db) : Intact node db' := by
  rcases q.nodeStep h with he | ⟨k, new, hw, hm⟩
  · unfold Intact
    rw [he]
    exact hk
  · by_cases hid : k = node.id
    · subst hid
      obtain ⟨s, hs⟩ := hw.spared rfl hk hq
      exact .of_mem ((hm new).2 (.inl rfl)) hs
    · obtain ⟨s, hs⟩ := hk
      obtain ⟨hmem, -⟩ := Table.get_eq_some.1 hs
      exact .of_mem ((hm _).2 (.inr ⟨hmem, fun h => hid h.symm⟩)) rfl

def Reads (γ : Option Node) : Op → Prop
  | .db (.nodeSave node) => ∃ found, γ = some found ∧ node = { found with status := .down }
  | _ => True

def nodeRead : (op : Op) → op.Resp → Option Node
  | .db (.nodeGet _), .ok found => found
  | _, _ => none

def rereading : Protocol sig (Option Node) := ⟨Reads, fun _ => nodeRead⟩

theorem reads_of_may {n : TaskName} (hn : ∀ id, n ≠ .request (.deregisterNode id)) (op : Op)
    (h : n.may cfg op) (γ : Option Node) : Reads γ op := by
  unfold Reads
  split
  · cases n with
    | request req =>
      cases req with
      | deregisterNode id => exact absurd rfl (hn id)
      | _ => exact h.elim
    | _ => exact h.elim
  · trivial

theorem deregister_reads (id : NodeId) :
    (NodeController.deregister id).Follows rereading (fun _ _ => True) none := by
  have hservice : ∀ γ, (NodeService.deregister id).Follows rereading (fun _ _ => True) γ := by
    intro γ
    refine ⟨trivial, fun answer => ?_⟩
    rcases answer with x | _ | node
    · trivial
    · trivial
    · refine ⟨⟨node, rfl, rfl⟩, fun saved => ?_⟩
      cases saved <;> trivial
  refine ⟨trivial, fun answer => ?_⟩
  rcases answer with x | _ | node
  · trivial
  · trivial
  · exact hservice _

theorem body_reads (cfg : Config) (n : TaskName) :
    (n.body cfg).Follows rereading (fun _ _ => True) none := by
  by_cases hn : ∃ id, n = .request (.deregisterNode id)
  · obtain ⟨id, rfl⟩ := hn
    exact deregister_reads id
  · have hcalls := body_calls cfg n
    exact (hcalls.maintains (I := fun _ => True) fun γ op _ hop =>
      ⟨reads_of_may (fun id h => hn ⟨id, h⟩) op hop γ, fun _ => trivial⟩).follows trivial
        fun _ _ _ => trivial

/-! ## Executions -/

def savedNode : Task (orchestrator cfg) → Option Node
  | ⟨_, .call (.db (.nodeSave node)) _⟩ => some node
  | _ => none

/-- The call of the step, if it takes effect, spares every node that was read to be saved. -/
def Sparing (p : System cfg) (l : Step cfg) : Prop :=
  ∀ c ∈ p.queries l, c.2.fault = .before ∨
    ∀ node ∈ p.tasks.filterMap savedNode, c.1.spares node p.world.db

instance Sparing.decidable (p : System cfg) (l : Step cfg) : Decidable (Sparing p l) :=
  inferInstanceAs (Decidable (∀ c ∈ p.queries l, _))

/-- The rows of the nodes to be saved have been kept. -/
def SavesIntact (p : System cfg) : Prop :=
  ∀ (j : Nat) (t : Task (orchestrator cfg)) node, p.tasks[j]? = some t → savedNode t = some node →
    Intact node p.world.db

theorem savedNode_eq_some {t : Task (orchestrator cfg)} {node : Node}
    (h : savedNode t = some node) :
    ∃ n next, t = ⟨n, .call (.db (.nodeSave node)) next⟩ := by
  unfold savedNode at h
  split at h
  · cases h
    exact ⟨_, _, rfl⟩
  · cases h

theorem savedNode_spawn (n : TaskName) :
    savedNode (Coroutine.Task.spawn n : Task (orchestrator cfg)) = none := by
  cases h : savedNode (Coroutine.Task.spawn n : Task (orchestrator cfg)) with
  | none => rfl
  | some node =>
    obtain ⟨m, next, hspawn⟩ := savedNode_eq_some h
    obtain ⟨-, hbody⟩ := Task.mk.inj hspawn
    have hreads := body_reads cfg n
    rw [show n.body cfg = _ from hbody] at hreads
    obtain ⟨found, hfound, -⟩ := hreads.1
    cases hfound

theorem get_of_nodeRead {p : System cfg} {i : Nat} {n : TaskName} {op : Op} {e : Env} {node : Node}
    (h : nodeRead op ((orchestrator cfg).handle i n op e p.world).1 = some node) :
    p.world.db.nodes.get node.id = some node ∧
      ((orchestrator cfg).handle i n op e p.world).2.1.db = p.world.db := by
  unfold nodeRead at h
  split at h
  · next k found hr =>
    have htx := Query.run_ok (show (Query.run (.nodeGet k) e _ p.world.db).1 = .ok _ from hr)
    obtain ⟨hget, hdb⟩ := Prod.mk.inj (Except.ok.inj htx)
    rw [h] at hget
    have hkey : node.id = k := Table.key_of_get hget
    exact ⟨hkey ▸ hget, hdb.symm⟩
  · cases h

theorem Found.mono {p₀ p q : System cfg} {node : Node} (h : Found p₀ p node)
    (hpq : System.Reachable p q) : Found p₀ q node := by
  obtain ⟨p', h₀, hp, hget⟩ := h
  exact ⟨p', h₀, hp.trans hpq, hget⟩

section
variable {w : World} {p : System cfg}

theorem found_of_saved (h : System.Reachable (System.start cfg w) p) {i : Nat}
    {t : Task (orchestrator cfg)} {node : Node} (ht : p.tasks[i]? = some t)
    (hsaved : savedNode t = some node) :
    ∃ found, Found (System.start cfg w) p found ∧ node = { found with status := .down } := by
  -- the ghost state of a task is the node it has just read
  have htracked := h.tracked rereading (fun _ => none) (body_reads cfg)
    (fun p g => System.Reachable (System.start cfg w) p ∧
      ∀ j found, g j = some found → Found (System.start cfg w) p found)
    ⟨_, Pool.Tracked.boot _ (body_reads cfg), .init, fun j found hj => by cases hj⟩ ?_ ?_ ?_
  · obtain ⟨g, hg, -, hfound⟩ := htracked
    obtain ⟨n, next, rfl⟩ := savedNode_eq_some hsaved
    obtain ⟨found, hread, hnode⟩ := (hg i _ ht).1
    exact ⟨found, hfound i found hread, hnode⟩
  · rintro p g i e n op next - ⟨hp, hfound⟩ hi - -
    have hstep : System.Reachable p (p.after i n op next e) :=
      .step (.run i e) .init trivial (Pool.step_run hi)
    refine ⟨hp.trans hstep, fun j found hj => ?_⟩
    unfold Pool.ghost at hj
    split at hj
    · exact ⟨p, hp, hstep, (get_of_nodeRead hj).1⟩
    · split at hj
      · cases hm : ((orchestrator cfg).handle i n op e p.world).2.2 with
        | none =>
          rw [hm] at hj
          exact (hfound j found hj).mono hstep
        | some m =>
          rw [hm] at hj
          cases hj
      · exact (hfound j found hj).mono hstep
  · rintro p g n ⟨hp, hfound⟩ hn -
    have hstep : System.Reachable p ⟨p.world, p.tasks ++ [Coroutine.Task.spawn n]⟩ :=
      .step (.arrive n) .init trivial (if_pos hn)
    refine ⟨hp.trans hstep, fun j found hj => ?_⟩
    by_cases hl : j = p.tasks.length
    · subst hl
      rw [Function.update_self] at hj
      cases hj
    · rw [Function.update_of_ne hl] at hj
      exact (hfound j found hj).mono hstep
  · rintro p g e ⟨hp, -⟩ -
    exact ⟨hp.step (.crash e) trivial rfl, fun j found hj => by cases hj⟩

/-- What a task has just read is in the table, and what the others are to save is spared. -/
theorem savesIntact_of_sparing (h : Pool.Reach Sparing (System.start cfg w) p) : SavesIntact p := by
  have htracked := h.tracked rereading (fun _ => none) (body_reads cfg)
    (fun p _ => SavesIntact p)
    ⟨_, Pool.Tracked.boot _ (body_reads cfg), fun j t node hj hs => ?_⟩ ?_ ?_ ?_
  · obtain ⟨g, -, hkept⟩ := htracked
    exact hkept
  · obtain ⟨-, rfl⟩ := Pool.getElem?_boot hj
    cases (savedNode_spawn _).symm.trans hs
  · intro p g i e n op next hg hkept hi _ hsparing j t node hj hs
    rcases Pool.getElem?_after hj with ⟨rfl, rfl⟩ | ⟨-, hj⟩ | ⟨-, m, -, rfl⟩
    -- the caller has just read the node it is to save
    · obtain ⟨m, next', hnext⟩ := savedNode_eq_some hs
      have hfollows := (hg j _ hi).2 ((orchestrator cfg).handle j n op e p.world).1
      rw [(Task.mk.inj hnext).2] at hfollows
      obtain ⟨found, hread, rfl⟩ := hfollows.1
      obtain ⟨hget, hdb⟩ := get_of_nodeRead hread
      exact ⟨found.status, by rw [Pool.after, hdb]; exact hget⟩
    -- another task's call spares the node
    · have hk := hkept j t node hj hs
      rcases System.step_db (Pool.step_run (e := e) hi) with hsame | ⟨c, e', now, a, hc, htx⟩
      · unfold Intact
        rw [hsame]
        exact hk
      · rcases hsparing _ hc with hf | hspares
        · unfold Intact
          rw [System.step_query (Pool.step_run hi) hc, Query.run_before hf]
          exact hk
        · exact intact_of_spares htx hk
            (hspares node (List.mem_filterMap.2 ⟨t, List.mem_of_getElem? hj, hs⟩))
    · cases (savedNode_spawn _).symm.trans hs
  · intro p g n hkept _ _ j t node hj hs
    rcases Pool.getElem?_arrive hj with hj | ⟨-, rfl⟩
    · exact hkept j t node hj hs
    · cases (savedNode_spawn _).symm.trans hs
  · intro p g e _ _ j t node hj hs
    obtain ⟨-, rfl⟩ := Pool.getElem?_boot hj
    cases (savedNode_spawn _).symm.trans hs

/-- The merge of a deregistration sets the status of the node it found to `down` and does nothing
else exactly when the row of that node has been kept; and it has been, in an execution in which no
other call rewrites or renames a row between such a read and its merge. -/
theorem deregister_iff_intact (h : System.Reachable (System.start cfg w) p) {i : Nat} {n : TaskName}
    {node : Node} {next : sig.Resp (.db (.nodeSave node)) → Async Unit}
    (ht : p.tasks[i]? = some ⟨n, .call (.db (.nodeSave node)) next⟩) :
    ∃ found, Found (System.start cfg w) p found ∧ node = { found with status := .down } ∧
      (∀ (e : Env) (q : System cfg), e.fault ≠ .before → p.step (.run i e) = some q →
        ((p.world.db.nodes.get found.id).isSome ∧
          q.world.db = deregistered found.id p.world.db ↔ Intact found p.world.db)) ∧
      (Pool.Reach Sparing (System.start cfg w) p → Intact found p.world.db) := by
  obtain ⟨found, hfound, rfl⟩ := found_of_saved h ht rfl
  refine ⟨found, hfound, rfl, fun e q he hs => save_iff_intact ?_, fun hsparing =>
    show Intact { found with status := .down } _ from savesIntact_of_sparing hsparing i _ _ ht rfl⟩
  rw [System.step_query hs (System.queries_run ht)]
  exact Query.run_commits he rfl

end

namespace Sample

/-- While the provisioning of the run is at its apply, a request has read the node to deregister
(task 4). -/
def deregistering (r : RunId) : List (Step config) :=
  applied r ++ .arrive (.request (.deregisterNode (.ofRun r))) :: steps 4 2

/-- Then the row is renamed after the server. -/
def renamed (r : RunId) : List (Step config) :=
  deregistering r ++ .run 3 { output := some (.named "gpu-1", "10.0.0.1") } :: steps 3 2

end Sample

theorem deregister_of_applied :
    let p := Sample.start.play (Sample.deregistering 7)
    ∃ found, Found Sample.start p found ∧ Intact found p.world.db := by
  have hp : (Sample.start.exec (Sample.deregistering 7)).isSome := by decide
  obtain ⟨found, hfound, -, -, hintact⟩ :=
    deregister_iff_intact (Pool.reach_play _ (Sample.deregistering 7) hp) (i := 4) rfl
  exact ⟨found, hfound, hintact (Pool.reach_play_of_obeys _ _ hp (by decide))⟩

/-- Overtaken by the renaming, the merge finds no row to set and adds one. -/
theorem deregister_adds_row :
    ¬ ∀ (p q : System Sample.config) (i : Nat) (n : TaskName) (node : Node)
    (next : sig.Resp (.db (.nodeSave node)) → Async Unit), System.Reachable Sample.start p →
    p.tasks[i]? = some ⟨n, .call (.db (.nodeSave node)) next⟩ → p.step (.run i {}) = some q →
    (p.world.db.nodes.get node.id).isSome ∧
      q.world.db = deregistered node.id p.world.db := by
  intro h
  have hp : (Sample.start.exec (Sample.renamed 7)).isSome := by decide
  have hq : (Sample.start.exec (Sample.renamed 7 ++ [.run 4 {}])).isSome := by decide
  have hrow := (h _ _ 4 _ _ _ (Pool.reach_play _ _ hp) rfl (Pool.step_play hq)).1
  revert hrow
  decide

end GrillPlatform
