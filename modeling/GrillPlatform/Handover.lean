import GrillPlatform.Exclusion
import GrillPlatform.NodeRows

/-! Two attempts of one run. An attempt that hits a capacity error puts the run back into the queue
before it marks its node row down, so the next attempt can start under it. The ticket of the run has
gone to the next attempt by then, and all that is left to the earlier one is to disown the run. -/

namespace GrillPlatform
open Coroutine
variable {cfg : Config}

def TaskName.attempts : TaskName → Option RunId
  | .handleQueuedRun r _ => some r
  | _ => none

def TaskName.pollsOrProvisions : TaskName → Bool
  | .pollingLoop | .pollTick | .handleQueuedRun .. => true
  | _ => false

def Query.provisions : Query → Option RunId
  | .createProvisioning r _ => some r
  | _ => none

def Query.marksDown : Query → Option RunId
  | .setDownByRun r => some r
  | _ => none

/-- An instance id of the cloud is no `node-<run_id>`. -/
def Query.namesInstance : Query → Bool
  | .setBusy _ (.ofRun _) _ => false
  | _ => true

def System.attempt (p : System cfg) (i : Nat) : Option RunId :=
  (p.taskNames[i]?).bind TaskName.attempts

def PollOrProvision (p : System cfg) : Step cfg → Prop
  | .run i _ => ∃ n ∈ p.taskNames[i]?, n.pollsOrProvisions = true
  | _ => False

/-- The run an attempt gives up by the call. -/
def Query.disowns : Query → Option RunId
  | .setDownByRun r | .setFailed r _ _ => some r
  | _ => none

/-- Task `j` attempts the run, has created its row and has not ended. -/
def System.Underway (p : System cfg) (j : Nat) (r : RunId) : Prop :=
  p.attempt j = some r ∧ ¬ p.Ended j ∧ ∀ c ∈ p.queries (.run j {}), c.1.provisions = none

/-- An attempt disowns its run only while no other attempt of it is under way. -/
def Yields (p : System cfg) : Step cfg → Prop
  | .run i e => ∀ c ∈ p.queries (.run i e), e.fault = .before ∨
      ∀ r ∈ c.1.disowns, ∀ j < p.tasks.length, j ≠ i → ¬ p.Underway j r
  | _ => True

/-- The poll loop and the provisioning tasks alone, in a cloud that names its instances itself. -/
def PollAlone (p : System cfg) (l : Step cfg) : Prop :=
  PollOrProvision p l ∧ ∀ c ∈ p.queries l, c.1.namesInstance = true

def Yielding (p : System cfg) (l : Step cfg) : Prop := PollAlone p l ∧ Yields p l

def MarksDown (j : Nat) (r : RunId) (p : System cfg) : Step cfg → Prop
  | .run i e => i = j ∧ ∃ c ∈ p.queries (.run i e), c.1.marksDown = some r
  | _ => False

section
variable {p q : System cfg} {l : Step cfg} {i j : Nat} {r : RunId}

theorem attempt_of_get {t : Coroutine.Task (orchestrator cfg)} (h : p.tasks[i]? = some t) :
    p.attempt i = TaskName.attempts t.name := by
  rw [System.attempt, System.taskNames, List.getElem?_map, h]
  rfl

theorem get_of_attempt (h : p.attempt i = some r) :
    ∃ g prog,
    p.tasks[i]? = some (⟨.handleQueuedRun r g, prog⟩ : Coroutine.Task (orchestrator cfg)) := by
  rw [System.attempt, System.taskNames, List.getElem?_map] at h
  obtain ⟨n, hn, hr⟩ := Option.bind_eq_some_iff.1 h
  obtain ⟨t, ht, rfl⟩ := Option.map_eq_some_iff.1 hn
  obtain ⟨n, prog⟩ := t
  cases n <;> cases hr
  exact ⟨_, prog, ht⟩

theorem run_of_pollAlone (h : PollAlone p l) : ∃ i e, l = .run i e := by
  cases l with
  | run i e => exact ⟨i, e, rfl⟩
  | arrive | crash => exact h.1.elim

theorem ended_step (hl : PollAlone p l) (hs : p.step l = some q) (h : p.Ended j) : q.Ended j := by
  obtain ⟨t, ht, he⟩ := h
  obtain ⟨i, e, rfl⟩ := run_of_pollAlone hl
  refine ⟨t, Pool.getElem?_step hs ht ?_ (fun e h => by cases h), he⟩
  rintro e' h
  cases h
  rcases Pool.step_cases hs with ⟨i, _, n, op, next, ⟨⟩, hi, -⟩ | ⟨_, ⟨⟩, -⟩ | ⟨_, ⟨⟩, -⟩
  exact Pool.not_ended hi id ⟨t, ht, he⟩

end

/-- Task `j` attempts the run and has called for its row. -/
def Going (j : Nat) (r : RunId) (p : System cfg) : Prop := ∃ g prog,
  p.tasks[j]? = some (⟨.handleQueuedRun r g, prog⟩ : Coroutine.Task (orchestrator cfg)) ∧
    prog.Calls (S := sig) (AttemptOp cfg r)

section
variable {p q : System cfg} {l : Step cfg} {i j : Nat} {r : RunId}

theorem Going.underway (h : Going j r p) (hu : ¬ p.Ended j) : p.Underway j r := by
  obtain ⟨g, prog, hj, hcalls⟩ := h
  refine ⟨attempt_of_get hj, hu, fun c hc => ?_⟩
  cases prog with
  | pure | raise => simp [System.queries, System.calls, hj] at hc
  | call op next =>
    rw [System.queries_run hj] at hc
    cases op with
    | db q =>
      cases hc
      cases q with
      | createProvisioning => exact hcalls.1.elim
      | _ => rfl
    | _ => cases hc

/-- What a task may call after its first call. -/
def TaskName.mayNext (cfg : Config) : TaskName → Op → Prop
  | .handleQueuedRun r _ => AttemptOp cfg r
  | _ => fun _ => True

theorem going_after {C : System cfg → Step cfg → Prop} {w : World} {g : GpuType}
    {e e' : (orchestrator cfg).Env} (h : Pool.Reach C (System.start cfg w) p)
    (ha : p.attempt j = some r)
    (hc : p.queries (.run j e) = some (.createProvisioning r g, e')) (hs : p.step (.run j e) = some q) :
    Going j r q := by
  obtain ⟨j, n, next, ⟨⟩, hj⟩ := System.call_of_queries hc
  rcases Pool.step_cases hs with ⟨_, _, _, _, _, ⟨⟩, hj', rfl⟩ | ⟨_, ⟨⟩, -⟩ | ⟨_, ⟨⟩, -⟩
  cases hj.symm.trans hj'
  obtain ⟨g', prog, hget⟩ := get_of_attempt ha
  cases hj.symm.trans hget
  refine ⟨g', _, Pool.getElem?_after_self hj, ?_⟩
  obtain ⟨first, hbody, hfirst⟩ := handleQueuedRun_eq cfg r g'
  have hnext : ∀ n op next, (orchestrator cfg).body n = .call op next →
      ∀ a, (next a).Calls (TaskName.mayNext cfg n) := by
    intro n op next hn a
    cases n with
    | handleQueuedRun r g =>
      obtain ⟨first, hbody, hfirst⟩ := handleQueuedRun_eq cfg r g
      cases (hbody.symm.trans hn : Prog.call _ first = _)
      exact hfirst a
    | _ => exact Prog.calls_true _
  rcases h.begun hnext hj with hb | hcalls
  · cases (hb.trans hbody : Prog.call _ next = _)
    exact hfirst _
  · have hcreates : AttemptOp cfg r (.db (.createProvisioning r g)) := hcalls.1
    exact hcreates.elim

theorem Going.step (h : Going j r p) (hl : PollAlone p l) (hs : p.step l = some q) :
    Going j r q := by
  obtain ⟨i, e, rfl⟩ := run_of_pollAlone hl
  obtain ⟨g, prog, hj, hcalls⟩ := h
  rcases Pool.step_cases hs with ⟨i, _, n, op, next, ⟨⟩, hi, rfl⟩ | ⟨_, ⟨⟩, -⟩ | ⟨_, ⟨⟩, -⟩
  by_cases hij : i = j
  · subst hij
    cases hi.symm.trans hj
    exact ⟨g, _, Pool.getElem?_after_self hi, hcalls.2 _⟩
  · exact ⟨g, prog, Pool.getElem?_step hs hj (fun e h => hij (by cases h; rfl))
      (fun e h => by cases h), hcalls⟩

theorem Going.reach {C : System cfg → Step cfg → Prop} (hC : ∀ p l, C p l → PollAlone p l)
    (h : Going j r p) (hr : Pool.Reach C p q) : Going j r q := by
  induction hr with
  | init => exact h
  | step l _ hc hs ih => exact ih.step (hC _ _ hc) hs

end

/-- Of the attempts of a run only the last can hold its ticket. -/
def LastHolds (p : System cfg) (g : Nat → Holding) : Prop :=
  ∀ i j r, i < j → p.attempt i = some r → p.attempt j = some r → r ∉ (g i).tickets

section
variable {p : System cfg} {g : Nat → Holding} {i : Nat} {n : (orchestrator cfg).Name} {op : sig.Op}
  {next : sig.Resp op → Prog sig Exc Unit} {e : (orchestrator cfg).Env}

theorem attempt_of_call {r : RunId} {a : op.Resp} (hn : n.may cfg op)
    (h : TaskName.attempts n = some r) : issued op a = [] ∧ op.created = none := by
  cases n with
  | handleQueuedRun r' g =>
    cases op with
    | db q => cases q <;> first | exact ⟨rfl, rfl⟩ | exact hn.elim
    | createTask => exact hn.elim
    | _ => exact ⟨rfl, rfl⟩
  | _ => cases h

theorem LastHolds.after (hL : LastHolds p g) (hJ : Exclusive p g) (hmay : n.may cfg op)
    (ht : p.tasks[i]? = some ⟨n, .call op next⟩) (ha : (g i).allows op) :
    LastHolds (p.after i n op next e) (Pool.ghost exclusion TaskName.holding g i op
      ((orchestrator cfg).handle i n op e p.world).1 p.tasks.length
      ((orchestrator cfg).handle i n op e p.world).2.2) := by
  have hi := Pool.lt_of_getElem? ht
  intro k j r hkj hk hj hr
  obtain ⟨gk, progk, hk⟩ := get_of_attempt hk
  obtain ⟨gj, progj, hj⟩ := get_of_attempt hj
  have hjlt := Pool.lt_of_getElem? hj
  -- an attempt that was there before the call attempted the run then
  have hold : ∀ {l : Nat} {t : Coroutine.Task (orchestrator cfg)}, l < p.tasks.length →
      (p.after i n op next e).tasks[l]? = some t → TaskName.attempts t.name = some r →
      p.attempt l = some r := by
    intro l t hl hget hattempt
    rcases Pool.getElem?_after hget with ⟨rfl, rfl⟩ | ⟨-, hget⟩ | ⟨rfl, -⟩
    · exact (attempt_of_get ht).trans hattempt
    · exact (attempt_of_get hget).trans hattempt
    · omega
  rcases hJ.tickets_after hi ha (Pool.lt_of_getElem? hk) hr with
    ⟨hlt, hheld, -⟩ | ⟨rfl, hissued⟩ | ⟨rfl, -⟩
  · have hattempt := hold hlt hk rfl
    rcases Pool.getElem?_after hj with ⟨rfl, -⟩ | ⟨-, hj'⟩ | ⟨rfl, m, hm, htask⟩
    · exact hL k j r hkj hattempt (hold hi hj rfl) hheld
    · exact hL k j r hkj hattempt (hold (Pool.lt_of_getElem? hj') hj rfl) hheld
    · -- the new attempt has its ticket from the caller, which is no attempt itself
      cases htask
      obtain rfl := created_eq hm
      obtain rfl := hJ.unique k hlt i hi r hheld (given_subset ha (List.mem_singleton_self r))
      rw [attempt_of_get ht] at hattempt
      cases (attempt_of_call (a := ()) hmay hattempt).2
  · have hattempt := (attempt_of_get ht).symm.trans (hold hi hk rfl)
    rw [(attempt_of_call hmay hattempt).1] at hissued
    cases hissued
  · rcases Pool.lt_length_after hjlt with rfl | ⟨-, hlt⟩ | ⟨rfl, -⟩ <;> omega

end

theorem lastHolds_of_reach {C : System cfg → Step cfg → Prop} (hC : ∀ p l, C p l → PollAlone p l)
    {w : World} {p : System cfg} (h : Pool.Reach C (System.start cfg w) p) :
    ∃ g, Pool.Tracked exclusion p g ∧ Exclusive p g ∧ LastHolds p g := by
  induction h with
  | init =>
    refine ⟨_, Pool.Tracked.boot _ (body_follows cfg), exclusive_boot cfg _ rfl, ?_⟩
    intro i j r _ hi
    obtain ⟨g, prog, hget⟩ := get_of_attempt hi
    cases (Pool.getElem?_boot hget).2
  | step l hr hc hs ih =>
    obtain ⟨g, htr, hJ, hL⟩ := ih
    obtain ⟨i, e, rfl⟩ := run_of_pollAlone (hC _ _ hc)
    rcases Pool.step_cases hs with ⟨i, e, n, op, next, ⟨⟩, ht, rfl⟩ | ⟨_, ⟨⟩, -⟩ | ⟨_, ⟨⟩, -⟩
    have ha := (htr i _ ht).1
    exact ⟨_, Pool.TrackedTo.after htr (body_follows cfg) e ht, hJ.after ht ha,
      hL.after hJ (System.may_of_call hr ht) ht ha⟩

theorem disowns_of_older {p : System cfg} {g : Nat → Holding} {i j : Nat} {r : RunId}
    {n : (orchestrator cfg).Name} {q : Query} {next : sig.Resp (.db q) → Prog sig Exc Unit}
    (htr : Pool.Tracked exclusion p g) (hL : LastHolds p g) (hij : i < j)
    (hi : p.attempt i = some r) (hj : p.attempt j = some r)
    (ht : p.tasks[i]? = some ⟨n, .call (.db q) next⟩) (hmay : TaskName.may cfg n (.db q)) :
    q = .runGet r ∨ q.disowns = some r := by
  have hticket := hL i j r hij hi hj
  have hallows : (g i).allows (.db q) := (htr i _ ht).1
  obtain ⟨gi, progi, hget⟩ := get_of_attempt hi
  cases ht.symm.trans hget
  cases q with
  | runGet => exact .inl (congrArg _ hmay)
  | setDownByRun | setFailed => exact .inr (congrArg some hmay)
  | createProvisioning => exact absurd (hmay.1 ▸ hallows) hticket
  | setBusy | setRunning => exact absurd (show r ∈ (g i).tickets from hmay ▸ hallows) hticket
  | requeueForRetry => exact absurd (show r ∈ (g i).tickets from hmay.1 ▸ hallows.1) hticket
  | _ => exact hmay.elim

/-! ## The rows of the run -/

/-- The row is under the key of its run or an instance id. -/
def OwnKey (r : RunId) (n : Node) : Prop := ∀ r', n.id = .ofRun r' → r' = r

/-- The run has a row that is not down, under its own key or an instance id, and no row has gone
down since `rows`. -/
structure RowUp (r : RunId) (rows : List Node) (db : Db) : Prop where
  up : ∃ n ∈ db.nodesOf r, (n.status = .provisioning ∨ n.status = .busy) ∧ OwnKey r n
  down : ∀ n ∈ db.nodesOf r, n.status = .down → n ∈ rows

def Query.writesRowsOf : Query → Option RunId
  | .createProvisioning r _ | .setBusy r _ _ | .setDownByRun r => some r
  | _ => none

section
variable {rows : List Node} {db db' : Db} {c : Query} {r r' : RunId} {k : NodeId} {node : Node}

theorem RowUp.own (h : RowUp r rows db)
    (hm : ∀ x, x ∈ db'.nodes.rows ↔ x = node ∨ (x ∈ db.nodes.rows ∧ x.id ≠ k))
    (hr : node.currentRunId = some r) (hs : node.status = .provisioning ∨ node.status = .busy)
    (hk : OwnKey r node) : RowUp r rows db' where
  up := ⟨node, Db.mem_nodesOf.2 ⟨(hm node).2 (.inl rfl), hr⟩, hs, hk⟩
  down n hn hdown := by
    obtain ⟨hn, hrn⟩ := Db.mem_nodesOf.1 hn
    rcases (hm n).1 hn with rfl | ⟨hn, -⟩
    · rw [hdown] at hs
      cases hs <;> contradiction
    · exact h.down n (Db.mem_nodesOf.2 ⟨hn, hrn⟩) hdown

theorem RowUp.other (h : RowUp r rows db)
    (hm : ∀ x, x ∈ db'.nodes.rows ↔ x = node ∨ (x ∈ db.nodes.rows ∧ x.id ≠ k))
    (hr : node.currentRunId ≠ some r) (hk : ∀ n ∈ db.nodesOf r, OwnKey r n → n.id ≠ k) :
    RowUp r rows db' where
  up := by
    obtain ⟨n, hn, hs, hown⟩ := h.up
    obtain ⟨hmem, hrn⟩ := Db.mem_nodesOf.1 hn
    exact ⟨n, Db.mem_nodesOf.2 ⟨(hm n).2 (.inr ⟨hmem, hk n hn hown⟩), hrn⟩, hs, hown⟩
  down n hn hdown := by
    obtain ⟨hn, hrn⟩ := Db.mem_nodesOf.1 hn
    rcases (hm n).1 hn with rfl | ⟨hn, -⟩
    · exact absurd hrn hr
    · exact h.down n (Db.mem_nodesOf.2 ⟨hn, hrn⟩) hdown

theorem key_of_other (hnode : db.nodesOf r' = [node]) (hne : r' ≠ r) {n : Node}
    (hn : n ∈ db.nodesOf r) : n.id ≠ node.id := by
  intro he
  obtain ⟨hmem, hr⟩ := Db.mem_nodesOf.1 hn
  obtain ⟨hmem', hr'⟩ := mem_of_nodesOf hnode
  cases Table.eq_of_key hmem hmem' he
  cases hr.symm.trans hr'
  exact hne rfl

theorem RowUp.congr (h : RowUp r rows db) (hnodes : db'.nodes = db.nodes) : RowUp r rows db' := by
  have hsame : db'.nodesOf r = db.nodesOf r := by rw [Db.nodesOf, hnodes, Db.nodesOf]
  exact ⟨hsame ▸ h.up, hsame ▸ h.down⟩

theorem RowUp.write {pick : List RunId} {now : Time} {a : c.Resp} (h : RowUp r rows db)
    (htx : c.tx pick now db = .ok (a, db')) (hc : c.writesRowsOf = some r')
    (hn : c.namesInstance = true) (hd : c.marksDown ≠ some r) : RowUp r rows db' := by
  rcases c.nodeStep htx with he | ⟨k, node, hw, hm⟩
  · exact h.congr he
  by_cases hr : r' = r
  · subst hr
    cases hw with
    | create | save => cases hc
    | provisioning =>
      cases hc
      exact h.own hm rfl (.inl rfl) fun r' hid => by cases hid; rfl
    | @busy _ i ip node hnode =>
      cases hc
      refine h.own hm (mem_of_nodesOf hnode).2 (.inr rfl) fun r' hid => ?_
      cases i with
      | ofRun => cases hn
      | named => cases hid
    | down =>
      cases hc
      exact absurd rfl hd
  · cases hw with
    | create | save => cases hc
    | provisioning =>
      cases hc
      exact h.other hm (fun he => hr (by cases he; rfl)) fun n _ hown hid => hr (hown r' hid)
    | busy hnode | down hnode =>
      cases hc
      refine h.other hm (fun he => hr ?_) fun n hn _ => key_of_other hnode hr hn
      cases (mem_of_nodesOf hnode).2.symm.trans he
      rfl

theorem rowUp_created {g : GpuType}
    (h : NodeRepository.createProvisioning r g db = .ok (node, db')) :
    RowUp r (db'.nodesOf r) db' := by
  cases (NodeRepository.createProvisioning_ok r g db).symm.trans h
  refine ⟨⟨_, Db.mem_nodesOf.2 ⟨Table.mem_put.2 (.inl rfl), rfl⟩, .inl rfl, ?_⟩, fun n hn _ => hn⟩
  rintro r' ⟨⟩
  rfl

end

theorem attempt_of_write {w : World} {C : System cfg → Step cfg → Prop} {p : System cfg} {i : Nat}
    {e e' : (orchestrator cfg).Env} {c : Query} {db : Db} {k : NodeId} {node : Node}
    (hp : Pool.Reach C (System.start cfg w) p) (hl : PollAlone p (.run i e))
    (hc : p.queries (.run i e) = some (c, e')) (hw : NodeWrite db c k node) :
    ∃ r, c.writesRowsOf = some r ∧ p.attempt i = some r := by
  obtain ⟨n, hn, hkind⟩ := hl.1
  rw [System.taskNames, List.getElem?_map] at hn
  obtain ⟨⟨n, prog⟩, ht, rfl⟩ := Option.map_eq_some_iff.1 hn
  have hattempt := attempt_of_get ht
  cases prog with
  | pure | raise => simp [System.queries, System.calls, ht] at hc
  | call op next =>
    rw [System.queries_run ht] at hc
    have hmay := System.may_of_call hp ht
    cases op with
    | db c' =>
      cases hc
      cases n with
      | pollingLoop | pollTick => cases hw <;> exact hmay.elim
      | handleQueuedRun r g =>
        cases hw with
        | create | save => exact hmay.elim
        | provisioning => exact ⟨r, congrArg some hmay.1, hattempt⟩
        | busy | down => exact ⟨r, congrArg some hmay, hattempt⟩
      | _ => cases hkind
    | _ => cases hc

/-- A step of the poll loop or of a provisioning task leaves the row of an attempt under way up,
unless the attempt itself marks it down. -/
theorem RowUp.step {w : World} {C : System cfg → Step cfg → Prop} {p q : System cfg} {l : Step cfg}
    {j : Nat} {r : RunId} {rows : List Node} (hp : Pool.Reach C (System.start cfg w) p)
    (h : RowUp r rows p.world.db) (hj : p.Underway j r) (hC : Yielding p l)
    (hm : ¬ MarksDown j r p l) (hs : p.step l = some q) : RowUp r rows q.world.db := by
  obtain ⟨i, e, rfl⟩ := run_of_pollAlone hC.1
  rcases Pool.step_cases hs with ⟨i, e, n, op, next, ⟨⟩, ht, rfl⟩ | ⟨_, ⟨⟩, -⟩ | ⟨_, ⟨⟩, -⟩
  rcases System.after_db p i e n op next with he | ⟨c, a, rfl, hf, htx⟩
  · rwa [he]
  rcases c.nodeStep htx with he | ⟨k, node, hw, hrows⟩
  · exact h.congr he
  have hc : p.queries (.run i e) = some (c, e) := System.queries_run ht
  obtain ⟨r', hr', hattempt⟩ := attempt_of_write hp hC.1 hc hw
  refine h.write htx hr' (hC.1.2 _ hc) fun hdown => ?_
  obtain rfl : r' = r := by
    cases c <;> cases hdown
    cases hr'
    rfl
  by_cases hij : j = i
  · subst hij
    exact hm ⟨rfl, _, hc, hdown⟩
  · have hdisowns : c.disowns = some r' := by cases c <;> first | exact hdown | cases hdown
    have hlt : j < p.tasks.length := by
      obtain ⟨_, _, hget⟩ := get_of_attempt hj.1
      exact Pool.lt_of_getElem? hget
    exact (hC.2 _ hc).resolve_left hf r' hdisowns j hlt hij hj

theorem older_step {w : World} {C : System cfg → Step cfg → Prop}
    (hCa : ∀ p l, C p l → PollAlone p l) {p q : System cfg} {i j : Nat} {r : RunId} {e : Env}
    (hp : Pool.Reach C (System.start cfg w) p) (hij : i < j) (hi : p.attempt i = some r)
    (hj : p.Underway j r) (hC : Yielding p (.run i e)) (hs : p.step (.run i e) = some q) :
    q.world.db.status r = p.world.db.status r ∧ q.world.db.nodesOf r = p.world.db.nodesOf r := by
  obtain ⟨g, htr, -, hL⟩ := lastHolds_of_reach hCa hp
  rcases Pool.step_cases hs with ⟨i, e, n, op, next, ⟨⟩, ht, rfl⟩ | ⟨_, ⟨⟩, -⟩ | ⟨_, ⟨⟩, -⟩
  rcases System.after_db p i e n op next with he | ⟨c, a, rfl, hf, htx⟩
  · rw [he]
    exact ⟨rfl, rfl⟩
  rcases disowns_of_older htr hL hij hi hj.1 ht (System.may_of_call hp ht) with rfl | hdisowns
  · -- a read
    have hsame : (p.after i n _ next e).world.db = p.world.db :=
      (Prod.mk.inj (Except.ok.inj htx)).2.symm
    rw [hsame]
    exact ⟨rfl, rfl⟩
  · have hlt : j < p.tasks.length := by
      obtain ⟨_, _, hget⟩ := get_of_attempt hj.1
      exact Pool.lt_of_getElem? hget
    have hyields := (hC.2 _ (System.queries_run ht)).resolve_left hf
    exact absurd hj (hyields r hdisowns j hlt (Nat.ne_of_gt hij))

/-- Once an attempt has created its row, and until it ends, no step of an earlier attempt changes
the status of the run or its rows, and until the attempt itself marks it down the row is in
provisioning or busy, as long as no attempt disowns its run while another is under way. -/
theorem attempts_apart {w : World} {p p₁ p₂ : System cfg} {j : Nat} {r : RunId} {g : GpuType}
    {e : Env} (h : Pool.Reach Yielding (System.start cfg w) p) (ha : p.attempt j = some r)
    (hc : p.queries (.run j e) = some (.createProvisioning r g, e)) (he : e.fault ≠ .before)
    (hC : Yielding p (.run j e)) (hs : p.step (.run j e) = some p₁)
    (h' : Pool.Reach Yielding p₁ p₂) (hu : ¬ p₂.Ended j) :
    (∀ i < j, p₂.attempt i = some r → ∀ e' q, Yielding p₂ (.run i e') →
      p₂.step (.run i e') = some q → q.world.db.status r = p₂.world.db.status r ∧
      q.world.db.nodesOf r = p₂.world.db.nodesOf r) ∧
    (Pool.Reach (fun p l => Yielding p l ∧ ¬ MarksDown j r p l) p₁ p₂ →
      (∃ n ∈ p₂.world.db.nodesOf r, n.status = .provisioning ∨ n.status = .busy) ∧
      ∀ n ∈ p₂.world.db.nodesOf r, n.status = .down → n ∈ p₁.world.db.nodesOf r) := by
  have hstart : Pool.Reach Yielding (System.start cfg w) p₁ := h.step _ hC hs
  have hgoing : Going j r p₁ := going_after h ha hc hs
  constructor
  · intro i hij hi e' q hC' hs'
    have hunder := (hgoing.reach (fun _ _ hl => hl.1) h').underway hu
    exact older_step (fun _ _ hl => hl.1) (hstart.trans h') hij hi hunder hC' hs'
  · intro hr
    have hcreated : RowUp r (p₁.world.db.nodesOf r) p₁.world.db := by
      have htx := NodeRepository.createProvisioning_ok r g p.world.db
      have hdb := (System.step_query hs hc).trans
        (Query.run_commits (q := .createProvisioning r g) he htx)
      rw [hdb]
      exact rowUp_created htx
    -- by induction on the execution: the attempt is under way until it ends
    have hup : ∀ q, Pool.Reach (fun p l => Yielding p l ∧ ¬ MarksDown j r p l) p₁ q → ¬ q.Ended j →
        RowUp r (p₁.world.db.nodesOf r) q.world.db := by
      intro q hq
      induction hq with
      | init => exact fun _ => hcreated
      | step l hq hl hs ih =>
        intro hu
        have hprev := fun he => hu (ended_step hl.1.1 hs he)
        have hreach := hq.mono fun _ _ hl => hl.1
        have hunder := (hgoing.reach (fun _ _ hl => hl.1) hreach).underway hprev
        exact (ih hprev).step (hstart.trans hreach) hunder hl.1 hl.2 hs
    obtain ⟨⟨n, hn, hstatus, -⟩, hdown⟩ := hup p₂ hr hu
    exact ⟨⟨n, hn, hstatus⟩, hdown⟩

namespace Sample

def waitingRun : Run :=
  { id := 7, model := "m", modelSizeB := 8, engine := .vllm, gpuTypeRequired := .L40S,
    scenarioPath := "s.yaml", createdAt := 0 }

/-- The process boots with one run in the queue. -/
def oneQueued : System config :=
  System.start config { world with
    db := { Db.empty with runs := Db.empty.runs.add waitingRun (by simp [Db.empty, Table.empty]) } }

/-- The first tick claims the run for task 2, whose `apply` is out of stock, and the run is back in
the queue. -/
def setBack : List (Step config) :=
  steps 0 5 ++ steps 1 4 ++ steps 2 6 ++
    .run 2 { tfOk := false, stderr := "out of stock" } :: steps 2 8

/-- The tick ends, and the next one claims the run for task 4. -/
def retaken : List (Step config) := steps 1 8 ++ steps 3 4

end Sample

instance PollAlone.decidable (p : System cfg) (l : Step cfg) : Decidable (PollAlone p l) :=
  have : Decidable (PollOrProvision p l) :=
    match l with
    | .run i _ => inferInstanceAs (Decidable (∃ n ∈ p.taskNames[i]?, n.pollsOrProvisions = true))
    | .arrive _ | .crash _ => isFalse id
  inferInstanceAs (Decidable (_ ∧ _))

instance System.decidableUnderway (p : System cfg) (j : Nat) (r : RunId) :
    Decidable (p.Underway j r) := inferInstanceAs (Decidable (_ ∧ _ ∧ _))

-- not by running through all run ids
instance Yields.decidable (p : System cfg) (l : Step cfg) : Decidable (Yields p l) :=
  match l with
  | .run i e =>
    have : DecidablePred fun c : Query × Env => e.fault = .before ∨ ∀ r ∈ c.1.disowns,
        ∀ j < p.tasks.length, j ≠ i → ¬ p.Underway j r := fun c =>
      have := Option.decidableForallMem (p := fun r => ∀ j < p.tasks.length, j ≠ i →
        ¬ p.Underway j r) c.1.disowns
      inferInstanceAs (Decidable (_ ∨ _))
    Option.decidableForallMem (p.queries (.run i e))
  | .arrive _ | .crash _ => isTrue trivial

instance Yielding.decidable (p : System cfg) (l : Step cfg) : Decidable (Yielding p l) :=
  inferInstanceAs (Decidable (_ ∧ _))

instance MarksDown.decidable (j : Nat) (r : RunId) (p : System cfg) (l : Step cfg) :
    Decidable (MarksDown j r p l) :=
  match l with
  | .run i e => inferInstanceAs (Decidable (i = j ∧ ∃ c ∈ p.queries (.run i e), _))
  | .arrive _ | .crash _ => isFalse id

/-- The next tick comes while the first attempt has its row still to mark down. -/
def Sample.overlapping : List (Step config) := setBack ++ retaken

open Sample in
/-- The first attempt (task 2) is there all the time that the second one (task 4) has been under
way, and its call to mark the row down fails. -/
theorem attempts_apart_of_overlapping :
    let p := (oneQueued.play (overlapping ++ [.run 4 {}])).play (steps 4 3)
    let q := p.play [.run 2 { fault := .before }]
    ¬ p.Ended 2 ∧ (∃ n ∈ p.world.db.nodesOf 7, n.status = .provisioning ∨ n.status = .busy) ∧
      q.world.db.nodesOf 7 = p.world.db.nodesOf 7 := by
  have h := Pool.reach_play_of_obeys oneQueued overlapping (C := Yielding) (by decide +kernel)
    (by decide +kernel)
  have hs : (oneQueued.play overlapping).step (.run 4 {}) =
      some (oneQueued.play (overlapping ++ [.run 4 {}])) := Pool.step_play (by decide)
  have hreach := Pool.reach_play_of_obeys (C := fun p l => Yielding p l ∧ ¬ MarksDown 4 7 p l)
    (oneQueued.play (overlapping ++ [.run 4 {}])) (steps 4 3) (by decide +kernel)
    (by decide +kernel)
  have hfails : ((oneQueued.play (overlapping ++ [.run 4 {}])).play (steps 4 3)).step
      (.run 2 { fault := .before }) = some (((oneQueued.play (overlapping ++ [.run 4 {}])).play
        (steps 4 3)).play [.run 2 { fault := .before }]) :=
    @Pool.step_play _ _ _ _ [] _ (by decide +kernel)
  have hapart := attempts_apart (j := 4) (r := 7) (g := .L40S) (e := {}) h (by decide +kernel) rfl
    (by decide) (by decide +kernel) hs (hreach.mono fun _ _ hl => hl.1) (by decide +kernel)
  exact ⟨by decide +kernel, (hapart.2 hreach).1, (hapart.1 2 (by decide) (by decide +kernel) _ _
    (by decide +kernel) hfails).2⟩

/-- The second attempt has created its row when the first one marks it down. -/
theorem attempts_disturb :
    ¬ ∀ (p p₁ p₂ q : System Sample.config) (i j : Nat) (r : RunId) (g : GpuType)
    (e e' : Env), Pool.Reach PollAlone Sample.oneQueued p → p.attempt j = some r →
    p.queries (.run j e) = some (.createProvisioning r g, e) → e.fault ≠ .before →
    p.step (.run j e) = some p₁ → Pool.Reach PollAlone p₁ p₂ → ¬ p₂.Ended j → i < j →
    p₂.attempt i = some r → p₂.step (.run i e') = some q →
    q.world.db.status r = p₂.world.db.status r ∧
      q.world.db.nodesOf r = p₂.world.db.nodesOf r := by
  intro h
  have hp :=
    Pool.reach_play_of_obeys Sample.oneQueued Sample.overlapping (C := PollAlone) (by decide)
    (by decide +kernel)
  have hs : (Sample.oneQueued.play Sample.overlapping).step (.run 4 {}) =
      some (Sample.oneQueued.play (Sample.overlapping ++ [.run 4 {}])) := Pool.step_play (by decide)
  have hs' : (Sample.oneQueued.play (Sample.overlapping ++ [.run 4 {}])).step (.run 2 {}) =
      some (Sample.oneQueued.play (Sample.overlapping ++ [.run 4 {}] ++ [.run 2 {}])) :=
    Pool.step_play (by decide)
  have hdown := (h _ _ _ _ 2 4 7 .L40S {} {} hp (by decide +kernel) rfl (by decide) hs .init
    (by decide +kernel) (by decide) (by decide +kernel) hs').2
  exact absurd hdown (by decide +kernel)

end GrillPlatform
