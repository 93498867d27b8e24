import GrillPlatform.RunRows
import GrillPlatform.Tickets

/-! Terraform operations on one run. The operations of ticket holders exclude each other; only the
destroys of scheduled releases can meet another operation. -/

namespace GrillPlatform
open Coroutine
variable {cfg : Config}

/-- Nobody else holds a ticket of a task, tickets are for runs out of the queue, there is one
poller, and the operations in progress are those of their tasks. -/
structure Exclusive (p : System cfg) (g : Nat → Holding) : Prop where
  nodup : ∀ i < p.tasks.length, (g i).tickets.Nodup
  unique : ∀ i < p.tasks.length, ∀ j < p.tasks.length, ∀ r ∈ (g i).tickets, r ∈ (g j).tickets →
    i = j
  claimed : ∀ i < p.tasks.length, ∀ r ∈ (g i).tickets, ∃ run, p.world.db.runs.get r = some run ∧
    run.status ≠ .queued
  poller : ∀ i < p.tasks.length, ∀ j < p.tasks.length, (g i).role ≠ none → (g j).role ≠ none → i = j
  booting : ∀ i < p.tasks.length, (g i).role = some .boot →
    ∀ j < p.tasks.length, (g j).tickets = []
  release : ∀ i t, p.tasks[i]? = some t → (g i).release = TaskName.releases t.name
  held : ∀ i < p.tasks.length, ∀ job r, (g i).doing = some (job, r) →
    r ∈ (g i).tickets ∨ job = .destroy ∧ (g i).release = some r
  busy : ∀ b ∈ p.world.busy, b.task < p.tasks.length ∧ (g b.task).doing = some (b.job, b.runId)
  apart : p.world.busy.Pairwise fun a b => a.task ≠ b.task

theorem mem_diff_given {γ : Holding} {op : Op} {a : op.Resp} {r : RunId} (hn : γ.tickets.Nodup)
    (h : r ∈ (γ.after op a).tickets) :
    r ∈ issued op a ∨ (r ∈ γ.tickets ∧ r ∉ given op) :=
  (List.mem_append.1 h).imp_right hn.mem_sdiff_iff.1

theorem given_subset {γ : Holding} {op : Op} (h : γ.allows op) : given op ⊆ γ.tickets := by
  cases op with
  | createTask n => exact h.2.2
  | db q =>
    cases q with
    | requeueForRetry r m => exact List.cons_subset.2 ⟨h.1, List.nil_subset _⟩
    | _ => exact List.nil_subset _
  | _ => exact List.nil_subset _

theorem doing_of_given {γ : Holding} {op : Op} {r : RunId} (h : γ.allows op) (hr : r ∈ given op) :
    γ.doing = none ∧ doingAfter γ.doing op = none := by
  cases op with
  | createTask n => exact ⟨h.1, h.1⟩
  | db q =>
    cases q with
    | requeueForRetry r m => exact ⟨h.2, h.2⟩
    | _ => cases hr
  | _ => cases hr

theorem held_after {γ : Holding} {op : Op} {a : op.Resp} (h : γ.allows op)
    (hn : γ.tickets.Nodup) (hheld : ∀ job r, γ.doing = some (job, r) →
      r ∈ γ.tickets ∨ job = .destroy ∧ γ.release = some r) {job : TfJob} {r : RunId}
    (hd : (γ.after op a).doing = some (job, r)) :
    r ∈ (γ.after op a).tickets ∨ job = .destroy ∧ γ.release = some r := by
  have hkeep : γ.doing = some (job, r) → r ∈ γ.tickets → r ∈ (γ.after op a).tickets := by
    intro hd hr
    refine List.mem_append_right _ (hn.mem_sdiff_iff.2 ⟨hr, fun hg => ?_⟩)
    rw [(doing_of_given h hg).1] at hd
    cases hd
  cases op with
  | enter job' r' =>
    cases hd
    exact h.2
  | leave => cases hd
  | _ => exact (hheld job r hd).imp_left (hkeep hd)

theorem role_of_after {γ : Holding} {op : Op} {a : op.Resp} (h : γ.allows op)
    (hr : roleAfter γ.role op a ≠ none) : γ.role ≠ none := by
  cases op with
  | createTask n =>
    simp only [roleAfter] at hr
    split at hr
    · exact absurd rfl hr
    · exact hr
  | db q =>
    cases q with
    | getOrphanedProvisioning => rw [show γ.role = some .boot from h]; simp
    | _ => exact hr
  | _ => exact hr

theorem role_of_roleAfter {role : Option Role} {op : Op} {a : op.Resp} {ρ : Role}
    (h : roleAfter role op a = some ρ) (hρ : ρ ≠ .recover) : role = some ρ := by
  unfold roleAfter at h
  split at h
  · exact absurd (Option.some.inj h).symm hρ
  · split at h
    · cases h
    · exact h
  · exact h

theorem role_of_issued {γ : Holding} {op : Op} {a : op.Resp} {r : RunId} (h : γ.allows op)
    (hr : r ∈ issued op a) : γ.role ≠ none ∧ roleAfter γ.role op a ≠ some .boot := by
  cases op with
  | db q =>
    cases q with
    | claimQueued =>
      have hp : γ.role = some .poll := h.1
      exact ⟨by simp [hp], by simp [roleAfter, hp]⟩
    | getOrphanedProvisioning =>
      refine ⟨by rw [show γ.role = some .boot from h]; simp, ?_⟩
      cases a with
      | error => cases hr
      | ok => simp [roleAfter]
    | _ => cases hr
  | _ => cases hr

theorem issued_run (q : Query) (e : Env) (now : Time) (db : Db) :
    (issued (.db q) (q.run e now db).1).Nodup ∧ ∀ r ∈ issued (.db q) (q.run e now db).1,
      (∃ run, (q.run e now db).2.runs.get r = some run ∧ run.status = .provisioning) ∧
      (q = .getOrphanedProvisioning ∨
        ∃ run, db.runs.get r = some run ∧ run.status = .queued) := by
  cases h : (q.run e now db).1 with
  | error x => cases q <;> simp [issued]
  | ok a =>
    have htx := Query.run_ok h
    cases q with
    | claimQueued g limit =>
      obtain ⟨hnd, -, hq⟩ := RunRepository.claimQueued_ok htx
      refine ⟨hnd, fun r hr => ?_⟩
      obtain ⟨run, hg, hs, -, hg'⟩ := hq r hr
      exact ⟨⟨_, hg', rfl⟩, .inr ⟨run, hg, hs⟩⟩
    | getOrphanedProvisioning =>
      injection htx with htx
      obtain ⟨rfl, hdb⟩ := Prod.mk.inj htx
      refine ⟨RunRepository.orphaned_nodup db, fun r hr => ⟨?_, .inl rfl⟩⟩
      rw [← hdb]
      exact RunRepository.mem_orphaned.1 hr
    | _ => simp [issued]

section
variable {p : System cfg} {g : Nat → Holding} {i : Nat} {n : (orchestrator cfg).Name} {op : sig.Op}
  {next : sig.Resp op → Prog sig Exc Unit} {e : (orchestrator cfg).Env}

abbrev answer (p : System cfg) (i : Nat) (n : (orchestrator cfg).Name) (op : sig.Op)
    (e : (orchestrator cfg).Env) : sig.Resp op := ((orchestrator cfg).handle i n op e p.world).1

theorem issued_nodup : (issued op (answer p i n op e)).Nodup := by
  cases op with
  | db q => exact (issued_run q e _ p.world.db).1
  | _ => exact List.nodup_nil

theorem Exclusive.fresh (hJ : Exclusive p g) (hi : i < p.tasks.length) (ha : (g i).allows op)
    {r : RunId} (hr : r ∈ issued op (answer p i n op e)) {j : Nat} (hj : j < p.tasks.length) :
    r ∉ (g j).tickets := by
  intro hm
  cases op with
  | db q =>
    rcases ((issued_run q e _ p.world.db).2 r hr).2 with rfl | ⟨run, hg, hs⟩
    · rw [hJ.booting i hi ha j hj] at hm
      cases hm
    · obtain ⟨run', hg', hs'⟩ := hJ.claimed j hj r hm
      cases hg.symm.trans hg'
      exact hs' hs
  | _ => cases hr

theorem Exclusive.claimed_after (hJ : Exclusive p g) (ht : p.tasks[i]? = some ⟨n, .call op next⟩)
    {j : Nat} (hj : j < p.tasks.length) {r : RunId} (hr : r ∈ (g j).tickets)
    (hgiven : ∀ m, (op : Op) ≠ .db (.requeueForRetry r m)) :
    ∃ run, (p.after i n op next e).world.db.runs.get r = some run ∧ run.status ≠ .queued := by
  obtain ⟨run, hg, hs⟩ := hJ.claimed j hj r hr
  have hstep : p.step (.run i e) = some (p.after i n op next e) := Pool.step_run ht
  rcases System.step_db hstep with he | ⟨c, e', t, a, hc, htx⟩
  · exact ⟨run, by rw [he]; exact hg, hs⟩
  · rw [System.queries_run ht] at hc
    rcases c.rowStep htx r with he | ⟨x, y, hx, hy, hw⟩ | ⟨_, _, _, hx, _⟩
    · exact ⟨run, he.trans hg, hs⟩
    · cases hx.symm.trans hg
      refine ⟨y, hy, fun hq => ?_⟩
      rcases hw.queued hq with h | ⟨m, rfl⟩
      · exact hs h
      · obtain rfl := Table.key_of_get hg
        cases op with
        | db q => cases hc; exact hgiven m rfl
        | _ => cases hc
    · cases hx.symm.trans hg

abbrev held' (p : System cfg) (g : Nat → Holding) (i : Nat) (n : (orchestrator cfg).Name)
    (op : sig.Op) (e : (orchestrator cfg).Env) : Nat → Holding :=
  Pool.ghost exclusion TaskName.holding g i op (answer p i n op e) p.tasks.length
    ((orchestrator cfg).handle i n op e p.world).2.2

theorem created_eq {m : TaskName}
    (h : ((orchestrator cfg).handle i n op e p.world).2.2 = some m) :
    (op : Op) = .createTask m := by
  cases op with
  | createTask m' => cases h; rfl
  | _ => cases h

theorem Exclusive.tickets_after (hJ : Exclusive p g) (hi : i < p.tasks.length)
    (ha : (g i).allows op) {j : Nat} (hj : j < (p.after i n op next e).tasks.length) {r : RunId}
    (hr : r ∈ (held' p g i n op e j).tickets) :
    (j < p.tasks.length ∧ r ∈ (g j).tickets ∧ (j = i → r ∉ given op)) ∨
    (j = i ∧ r ∈ issued op (answer p i n op e)) ∨
    (j = p.tasks.length ∧ r ∈ given op ∧ ∃ m, (op : Op) = .createTask m) := by
  rcases Pool.lt_length_after hj with rfl | ⟨hne, hlt⟩ | ⟨rfl, m, hm⟩
  · rw [held', Pool.ghost_self] at hr
    rcases mem_diff_given (hJ.nodup j hi) hr with h | ⟨h, hg⟩
    · exact .inr (.inl ⟨rfl, h⟩)
    · exact .inl ⟨hi, h, fun _ => hg⟩
  · rw [held', Pool.ghost_other hne (Nat.ne_of_lt hlt)] at hr
    exact .inl ⟨hlt, hr, fun h => absurd h hne⟩
  · obtain rfl := created_eq hm
    rw [held', hm, Pool.ghost_new hi] at hr
    exact .inr (.inr ⟨rfl, hr, m, rfl⟩)

theorem busy_call (w : World) (i : Nat) (e : Env) (op : Op) : (w.call cfg i e op).2.busy =
    match op with
    | .enter job r => ⟨i, job, r⟩ :: w.busy
    | .leave job r => w.busy.erase ⟨i, job, r⟩
    | _ => w.busy := by
  cases op <;> rfl

theorem Exclusive.holdings_after (hJ : Exclusive p g)
    (ht : p.tasks[i]? = some ⟨n, .call op next⟩) (ha : (g i).allows op) :
    let p' := p.after i n op next e
    let g' := held' p g i n op e
    (∀ j < p'.tasks.length, (g' j).tickets.Nodup) ∧
    (∀ j < p'.tasks.length, ∀ k < p'.tasks.length, ∀ r ∈ (g' j).tickets, r ∈ (g' k).tickets →
      j = k) ∧
    ∀ j < p'.tasks.length, ∀ r ∈ (g' j).tickets, ∃ run, p'.world.db.runs.get r = some run ∧
      run.status ≠ .queued := by
  have hi := Pool.lt_of_getElem? ht
  refine ⟨fun j hj => ?_, fun j hj k hk r hr hr' => ?_, fun j hj r hr => ?_⟩
  · rcases Pool.lt_length_after hj with rfl | ⟨hne, hlt⟩ | ⟨rfl, m, hm⟩
    · rw [held', Pool.ghost_self]
      exact List.nodup_append.2 ⟨issued_nodup, (hJ.nodup j hi).diff, fun r hr r' hr' he =>
        hJ.fresh hi ha hr hi (he ▸ (List.diff_subset _ _ hr'))⟩
    · rw [held', Pool.ghost_other hne (Nat.ne_of_lt hlt)]
      exact hJ.nodup j hlt
    · rw [held', hm, Pool.ghost_new hi]
      cases m <;> simp [TaskName.holding]
  -- a ticket was held before, or has just been issued, or is given to the new task
  · rcases hJ.tickets_after hi ha hj hr with ⟨hj', hm, hg⟩ | ⟨rfl, hs⟩ | ⟨rfl, hg, m, rfl⟩ <;>
    rcases hJ.tickets_after hi ha hk hr' with ⟨hk', hm', hg'⟩ | ⟨rfl, hs'⟩ | ⟨rfl, hg', m', hm'⟩
    · exact hJ.unique j hj' k hk' r hm hm'
    · exact absurd hm (hJ.fresh hi ha hs' hj')
    · exact absurd hg' (hg (hJ.unique j hj' i hi r hm (given_subset ha hg')))
    · exact absurd hm' (hJ.fresh hi ha hs hk')
    · rfl
    · subst hm'
      cases hs
    · exact absurd hg (hg' (hJ.unique k hk' i hi r hm' (given_subset ha hg)))
    · cases hs'
    · rfl
  · rcases hJ.tickets_after hi ha hj hr with ⟨hj', hm, hg⟩ | ⟨rfl, hs⟩ | ⟨rfl, hg, m, rfl⟩
    · refine hJ.claimed_after ht hj' hm fun m hop => ?_
      subst hop
      exact hg (hJ.unique j hj' i hi r hm ha.1) (List.mem_singleton_self r)
    · cases op with
      | db q =>
        obtain ⟨⟨run, hg, hs⟩, -⟩ := (issued_run q e _ p.world.db).2 r hs
        exact ⟨run, hg, by rw [hs]; simp⟩
      | _ => cases hs
    · exact hJ.claimed i hi r (given_subset ha hg)

theorem holding_role {m : TaskName} {role : Option Role} (hc : m.creator role)
    (hr : m.holding.role ≠ none) : m.holding.role = some .poll ∧ role ≠ none := by
  cases m with
  | pollingLoop => exact hc.elim
  | pollTick => exact ⟨rfl, by obtain h | h := hc <;> simp [h]⟩
  | _ => exact absurd rfl hr

theorem holding_release (m : TaskName) : m.holding.release = m.releases := by cases m <;> rfl

theorem holding_doing (m : TaskName) : m.holding.doing = none := by cases m <;> rfl

theorem Exclusive.roles_after (hJ : Exclusive p g)
    (ht : p.tasks[i]? = some ⟨n, .call op next⟩) (ha : (g i).allows op) :
    let p' := p.after i n op next e
    let g' := held' p g i n op e
    (∀ j < p'.tasks.length, ∀ k < p'.tasks.length, (g' j).role ≠ none → (g' k).role ≠ none →
      j = k) ∧
    ∀ j < p'.tasks.length, (g' j).role = some .boot → ∀ k < p'.tasks.length,
      (g' k).tickets = [] := by
  have hi := Pool.lt_of_getElem? ht
  -- whoever has a part after the call had it before, or got it from the caller, who had it
  have hrole : ∀ j < (p.after i n op next e).tasks.length, (held' p g i n op e j).role ≠ none →
      (j < p.tasks.length ∧ (g j).role ≠ none ∧ (j = i → roleAfter (g i).role op
        (answer p i n op e) ≠ none)) ∨
      (j = p.tasks.length ∧ (g i).role ≠ none ∧
        roleAfter (g i).role op (answer p i n op e) = none) := by
    intro j hj hr
    rcases Pool.lt_length_after hj with rfl | ⟨hne, hlt⟩ | ⟨rfl, m, hm⟩
    · rw [held', Pool.ghost_self] at hr
      exact .inl ⟨hi, role_of_after ha hr, fun _ => hr⟩
    · rw [held', Pool.ghost_other hne (Nat.ne_of_lt hlt)] at hr
      exact .inl ⟨hlt, hr, fun h => absurd h hne⟩
    · obtain rfl := created_eq hm
      rw [held', hm, Pool.ghost_new hi] at hr
      obtain ⟨hp, hg⟩ := holding_role ha.2.1 hr
      exact .inr ⟨rfl, hg, by simp [roleAfter, hp]⟩
  constructor
  · intro j hj k hk hr hr'
    rcases hrole j hj hr with ⟨hj', hg, hn⟩ | ⟨rfl, hg, hn⟩ <;>
    rcases hrole k hk hr' with ⟨hk', hg', hn'⟩ | ⟨rfl, hg', hn'⟩
    · exact hJ.poller j hj' k hk' hg hg'
    · exact absurd hn' (hn (hJ.poller j hj' i hi hg hg'))
    · exact absurd hn (hn' (hJ.poller k hk' i hi hg' hg))
    · rfl
  · intro j hj hr k hk
    obtain ⟨j₀, hj₀, hb, hpoll⟩ : ∃ j₀ < p.tasks.length, (g j₀).role = some .boot ∧
        (roleAfter (g i).role op (answer p i n op e) ≠ some .boot → j₀ ≠ i) := by
      rcases Pool.lt_length_after hj with rfl | ⟨hne, hlt⟩ | ⟨rfl, m, hm⟩
      · rw [held', Pool.ghost_self] at hr
        exact ⟨j, hi, role_of_roleAfter hr (by decide), fun h => absurd hr h⟩
      · rw [held', Pool.ghost_other hne (Nat.ne_of_lt hlt)] at hr
        exact ⟨j, hlt, hr, fun _ => hne⟩
      · obtain rfl := created_eq hm
        rw [held', hm, Pool.ghost_new hi] at hr
        cases (holding_role ha.2.1 (by rw [hr]; simp)).1.symm.trans hr
    have hnone := hJ.booting j₀ hj₀ hb
    refine List.eq_nil_iff_forall_not_mem.2 fun r hr => ?_
    rcases hJ.tickets_after hi ha hk hr with ⟨hk', hm, -⟩ | ⟨-, hs⟩ | ⟨-, hg, -⟩
    · rw [hnone k hk'] at hm
      cases hm
    · obtain ⟨hri, hra⟩ := role_of_issued ha hs
      exact hpoll hra (hJ.poller j₀ hj₀ i hi (by rw [hb]; simp) hri)
    · have := given_subset ha hg
      rw [hnone i hi] at this
      cases this

theorem Exclusive.busy_after (hJ : Exclusive p g)
    (ht : p.tasks[i]? = some ⟨n, .call op next⟩) (ha : (g i).allows op) :
    let p' := p.after i n op next e
    let g' := held' p g i n op e
    (∀ j t, p'.tasks[j]? = some t → (g' j).release = TaskName.releases t.name) ∧
    (∀ j < p'.tasks.length, ∀ job r, (g' j).doing = some (job, r) →
      r ∈ (g' j).tickets ∨ job = .destroy ∧ (g' j).release = some r) ∧
    (∀ b ∈ p'.world.busy, b.task < p'.tasks.length ∧ (g' b.task).doing = some (b.job, b.runId)) ∧
    p'.world.busy.Pairwise fun a b => a.task ≠ b.task := by
  have hi := Pool.lt_of_getElem? ht
  refine ⟨fun j t hj => ?_, fun j hj job r hd => ?_, ?_, ?_⟩
  · rcases Pool.getElem?_after hj with ⟨rfl, rfl⟩ | ⟨hne, hj⟩ | ⟨rfl, m, hm, rfl⟩
    · rw [held', Pool.ghost_self]
      exact hJ.release j ⟨n, .call op next⟩ ht
    · rw [held', Pool.ghost_other hne (Nat.ne_of_lt (Pool.lt_of_getElem? hj))]
      exact hJ.release j t hj
    · rw [held', hm, Pool.ghost_new hi]
      exact holding_release m
  · rcases Pool.lt_length_after hj with rfl | ⟨hne, hlt⟩ | ⟨rfl, m, hm⟩
    · rw [held', Pool.ghost_self] at hd ⊢
      exact held_after ha (hJ.nodup j hi) (hJ.held j hi) hd
    · rw [held', Pool.ghost_other hne (Nat.ne_of_lt hlt)] at hd ⊢
      exact hJ.held j hlt job r hd
    · rw [held', hm, Pool.ghost_new hi, holding_doing] at hd
      cases hd
  · rw [show (p.after i n op next e).world.busy = _ from busy_call _ i e op]
    intro b hb
    have hlen := Pool.length_le_after p i n op next e
    -- an operation of another task, or one that the call neither begins nor ends
    have hold : b ∈ p.world.busy → (b.task = i → doingAfter (g i).doing op = (g i).doing) →
        b.task < (p.after i n op next e).tasks.length ∧
        (held' p g i n op e b.task).doing = some (b.job, b.runId) := fun hb hsame => by
      obtain ⟨hlt, hd⟩ := hJ.busy b hb
      refine ⟨hlt.trans_le hlen, ?_⟩
      by_cases hbi : b.task = i
      · rw [hbi] at hd ⊢
        rw [held', Pool.ghost_self]
        exact (hsame hbi).trans hd
      · rw [held', Pool.ghost_other hbi (Nat.ne_of_lt hlt)]
        exact hd
    cases op with
    | enter job r =>
      rcases List.mem_cons.1 hb with rfl | hb
      · exact ⟨hi.trans_le hlen, by rw [held', Pool.ghost_self]; rfl⟩
      · refine hold hb fun hbi => ?_
        have hd := (hJ.busy b hb).2
        rw [hbi, show (g i).doing = none from ha.1] at hd
        cases hd
    | leave job r =>
      have hnd : p.world.busy.Nodup := hJ.apart.imp fun h he => h (congrArg _ he)
      obtain ⟨hne, hmem⟩ := hnd.mem_erase_iff.1 hb
      refine hold hmem fun hbi => absurd ?_ hne
      have hd := (hJ.busy b hmem).2
      rw [hbi, show (g i).doing = some (job, r) from ha] at hd
      obtain ⟨task, job', r'⟩ := b
      cases hd
      cases hbi
      rfl
    | _ => exact hold hb fun _ => rfl
  · rw [show (p.after i n op next e).world.busy = _ from busy_call _ i e op]
    cases op with
    | enter job r =>
      refine List.pairwise_cons.2 ⟨fun b hb hbi => ?_, hJ.apart⟩
      have hd := (hJ.busy b hb).2
      rw [← hbi, show (g i).doing = none from ha.1] at hd
      cases hd
    | leave job r => exact hJ.apart.sublist List.erase_sublist
    | _ => exact hJ.apart

theorem Exclusive.after (hJ : Exclusive p g) (ht : p.tasks[i]? = some ⟨n, .call op next⟩)
    (ha : (g i).allows op) : Exclusive (p.after i n op next e) (held' p g i n op e) := by
  obtain ⟨hnodup, hunique, hclaimed⟩ := hJ.holdings_after ht ha (e := e)
  obtain ⟨hpoller, hbooting⟩ := hJ.roles_after ht ha (e := e)
  obtain ⟨hrelease, hheld, hbusy, hapart⟩ := hJ.busy_after ht ha (e := e)
  exact ⟨hnodup, hunique, hclaimed, hpoller, hbooting, hrelease, hheld, hbusy, hapart⟩

end

theorem exclusive_boot (cfg : Config) (w : World) (hw : w.busy = []) :
    Exclusive (Pool.boot (M := orchestrator cfg) w) fun _ => TaskName.holding .pollingLoop where
  nodup _ _ := List.nodup_nil
  unique := by simp [Pool.boot]
  claimed _ _ _ h := by cases h
  poller := by simp [Pool.boot]
  booting _ _ _ _ _ := rfl
  release i t h := by
    obtain ⟨-, rfl⟩ := Pool.getElem?_boot h
    rfl
  held _ _ _ _ h := by cases h
  busy b h := by simp [Pool.boot, hw] at h
  apart := by simp [Pool.boot, hw]

theorem exclusive_arrive {p : System cfg} {g : Nat → Holding} (hJ : Exclusive p g) (req : Request) :
    Exclusive ⟨p.world, p.tasks ++ [Coroutine.Task.spawn (M := orchestrator cfg) (.request req)]⟩
      (Function.update g p.tasks.length (TaskName.holding (.request req))) := by
  generalize hg' : Function.update g p.tasks.length (TaskName.holding (.request req)) = g'
  have hcases {j : Nat}
      (hj : j < (p.tasks ++ [Coroutine.Task.spawn (M := orchestrator cfg) (.request req)]).length) :
      (j < p.tasks.length ∧ g' j = g j) ∨ g' j = {} := by
    rw [← hg']
    exact (Pool.update_cases hj).imp_right And.right
  have hold {j : Nat} (hj : j < p.tasks.length) : g' j = g j := by
    rw [← hg']
    exact Function.update_of_ne (Nat.ne_of_lt hj) ..
  have hnew : g' p.tasks.length = {} := by
    rw [← hg']
    exact Function.update_self ..
  have htickets {j : Nat}
      (hj : j < (p.tasks ++ [Coroutine.Task.spawn (M := orchestrator cfg) (.request req)]).length)
      {r : RunId} (hr : r ∈ (g' j).tickets) : j < p.tasks.length ∧ r ∈ (g j).tickets := by
    rcases hcases hj with ⟨hlt, hg⟩ | hg
    · exact ⟨hlt, hg ▸ hr⟩
    · rw [hg] at hr
      cases hr
  have hrole {j : Nat}
      (hj : j < (p.tasks ++ [Coroutine.Task.spawn (M := orchestrator cfg) (.request req)]).length)
      (hr : (g' j).role ≠ none) : j < p.tasks.length ∧ g' j = g j := by
    rcases hcases hj with hold | hg
    · exact hold
    · rw [hg] at hr
      exact absurd rfl hr
  refine ⟨fun j hj => ?_, fun j hj k hk r hr hr' => ?_, fun j hj r hr => ?_,
    fun j hj k hk hr hr' => ?_, fun j hj hr k hk => ?_, fun j t ht => ?_, fun j hj job r hd => ?_,
    fun b hb => ?_, hJ.apart⟩
  · rcases hcases hj with ⟨hlt, hg⟩ | hg
    · rw [hg]
      exact hJ.nodup j hlt
    · rw [hg]
      exact List.nodup_nil
  · obtain ⟨hj, hr⟩ := htickets hj hr
    obtain ⟨hk, hr'⟩ := htickets hk hr'
    exact hJ.unique j hj k hk r hr hr'
  · obtain ⟨hj, hr⟩ := htickets hj hr
    exact hJ.claimed j hj r hr
  · obtain ⟨hj, hg⟩ := hrole hj hr
    obtain ⟨hk, hgk⟩ := hrole hk hr'
    exact hJ.poller j hj k hk (hg ▸ hr) (hgk ▸ hr')
  · obtain ⟨hj, hg⟩ := hrole hj (by rw [hr]; exact Option.some_ne_none _)
    rcases hcases hk with ⟨hlt, hgk⟩ | hgk
    · rw [hgk]
      exact hJ.booting j hj (hg ▸ hr) k hlt
    · rw [hgk]
  · rcases Pool.getElem?_arrive ht with ht | ⟨rfl, rfl⟩
    · rw [hold (Pool.lt_of_getElem? ht)]
      exact hJ.release j t ht
    · rw [hnew]
      rfl
  · rcases hcases hj with ⟨hlt, hg⟩ | hg
    · rw [hg] at hd ⊢
      exact hJ.held j hlt job r hd
    · rw [hg] at hd
      cases hd
  · obtain ⟨hlt, hd⟩ := hJ.busy b hb
    refine ⟨?_, by rw [hold hlt]; exact hd⟩
    rw [List.length_append]
    exact Nat.lt_add_right _ hlt

theorem exclusive_of_reachable {w : World} {p : System cfg}
    (h : System.Reachable (System.start cfg w) p) : ∃ g, Exclusive p g := by
  obtain ⟨g, -, hJ⟩ := h.tracked exclusion TaskName.holding (body_follows cfg) Exclusive
    ⟨_, Pool.Tracked.boot _ (body_follows cfg), exclusive_boot cfg _ rfl⟩
    (fun p g i e n op next _ hJ ht ha _ => hJ.after ht ha)
    (fun p g n hJ hn _ => by
      cases n with
      | request req => exact exclusive_arrive hJ req
      | _ => cases hn)
    fun p g e _ _ => exclusive_boot cfg _ rfl
  exact ⟨g, hJ⟩

/-- The operation is a destroy of a release that a callback, a watchdog or leaked-node recovery
scheduled. -/
def ReleaseDestroy (p : System cfg) (b : InProgress) : Prop :=
  b.job = .destroy ∧ ∃ n, p.taskNames[b.task]? = some n ∧ n.releases = some b.runId

/-- Whenever two terraform operations of one run are in progress, one of them is the destroy of a
scheduled release; in particular no two `provision_node` of one run overlap. -/
theorem operations_exclude {w : World} {p : System cfg}
    (h : System.Reachable (System.start cfg w) p) :
    (p.world.busy.Pairwise fun a b => a.runId = b.runId →
      ReleaseDestroy p a ∨ ReleaseDestroy p b) ∧
    ∀ r, (p.world.busy.filter fun b => b.job = .provision ∧ b.runId = r).length ≤ 1 := by
  obtain ⟨g, hJ⟩ := exclusive_of_reachable h
  -- an operation runs on a ticket of its task, or it is the destroy of a release
  have hcase : ∀ b ∈ p.world.busy, b.task < p.tasks.length ∧
      (b.runId ∈ (g b.task).tickets ∨ ReleaseDestroy p b) := by
    intro b hb
    obtain ⟨hlt, hd⟩ := hJ.busy b hb
    refine ⟨hlt, (hJ.held b.task hlt _ _ hd).imp_right fun ⟨hjob, hrel⟩ => ⟨hjob, ?_⟩⟩
    have ht := List.getElem?_eq_getElem hlt
    refine ⟨_, by rw [System.taskNames, List.getElem?_map, ht]; rfl, ?_⟩
    rw [← hJ.release b.task _ ht, hrel]
  have hpair : p.world.busy.Pairwise fun a b => a.runId = b.runId →
      ReleaseDestroy p a ∨ ReleaseDestroy p b := by
    refine hJ.apart.imp_of_mem fun {a b} ha hb hne hrun => ?_
    obtain ⟨hla, hta | hra⟩ := hcase a ha
    · obtain ⟨hlb, htb | hrb⟩ := hcase b hb
      · exact absurd (hJ.unique _ hla _ hlb _ hta (hrun ▸ htb)) hne
      · exact .inr hrb
    · exact .inl hra
  refine ⟨hpair, fun r => ?_⟩
  match hl : p.world.busy.filter fun b => b.job = .provision ∧ b.runId = r with
  | [] => rw [hl]; exact Nat.zero_le 1
  | [_] => rw [hl]; exact le_rfl
  | a :: b :: rest =>
    have hf := hpair.filter fun b => b.job = .provision ∧ b.runId = r
    have hmem : ∀ x ∈ a :: b :: rest, x.job = .provision ∧ x.runId = r := fun x hx => by
      rw [← hl] at hx
      exact of_decide_eq_true (List.mem_filter.1 hx).2
    rw [hl] at hf
    obtain ⟨hja, hra⟩ := hmem a (by simp)
    obtain ⟨hjb, hrb⟩ := hmem b (by simp)
    rcases (List.pairwise_cons.1 hf).1 b (by simp) (hra.trans hrb.symm) with ⟨hd, -⟩ | ⟨hd, -⟩
    · rw [hja] at hd; cases hd
    · rw [hjb] at hd; cases hd

theorem operations_exclude_of_applied :
    let p := Sample.start.play (Sample.applied 7)
    p.world.busy = [⟨3, .provision, 7⟩] ∧
      (p.world.busy.filter fun b => b.job = .provision ∧ b.runId = 7).length ≤ 1 :=
  ⟨by decide,
    (operations_exclude (w := Sample.world) (Pool.reach_play Sample.start (Sample.applied 7)
    (by decide))).2 7⟩

/-- `apply` still hangs when the watchdog fails the run, and its release enters `destroy_node`. -/
theorem operations_overlap : ¬ ∀ p : System Sample.config, System.Reachable Sample.start p →
    p.world.busy.Pairwise fun a b => a.runId ≠ b.runId := by
  intro h
  have hp : (Sample.start.exec (Sample.claimed 7 ++ Sample.steps 3 7 ++ Sample.steps 1 2 ++
    .run 1 { elapsed := 31 * 60 * 1000000 } :: Sample.steps 1 2 ++ Sample.steps 4 1)).isSome := by
    decide
  exact absurd (h _ (Pool.reach_play _ _ hp)) (by decide)

end GrillPlatform
