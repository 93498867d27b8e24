import GrillPlatform.CapacityGate
import GrillPlatform.Coroutine.Watch
import GrillPlatform.Exclusion

/-! GPU quota. A run counts against the quota while it is in provisioning or running, but its
server is there until its release is through. -/

namespace GrillPlatform
open Coroutine RunRepository
variable {cfg : Config}

/-- The servers of a GPU type. -/
def vms (w : World) (g : GpuType) : Nat :=
  w.db.runs.rows.countP fun run => run.gpuTypeRequired = g ∧ w.cloud.server run.id

def Op.keepsQuota (quota : GpuType → Option Int) : Op → Prop
  | .updateQuota live => ∀ g ∈ GpuType.all, (live g).or (quota g) = quota g
  | _ => True

/-- The assumptions on the execution: the process does not stop, the quota does not change. -/
def Steady (p : System cfg) : Step cfg → Prop
  | .crash _ => False
  | l => ∀ c ∈ p.calls l, c.1.keepsQuota p.world.quota

def Applies (r : RunId) (op : Op) : Prop := op = .tf (.apply r)

/-- The run has a server, or a task is still to apply it. -/
def Holds (p : System cfg) (r : RunId) : Prop :=
  p.world.cloud.server r = true ∨ ∃ t ∈ p.tasks, t.prog.May (Applies r)

/-- When the poller counts, every run that holds a server is in provisioning or running. -/
def Counted (p : System cfg) (l : Step cfg) : Prop :=
  ∀ e, p.queries l = some (.countLiveByType, e) → e.fault ≠ .none ∨
    ∀ run ∈ p.world.db.runs.rows, Holds p run.id → isLive run = true

instance Op.decidableKeepsQuota (quota : GpuType → Option Int) :
    (op : Op) → Decidable (op.keepsQuota quota)
  | .updateQuota _ => inferInstanceAs (Decidable (∀ g ∈ GpuType.all, _))
  | .db _ | .s3 _ | .tf _ | .workspaceExists _ | .modelInfo _ | .enter .. | .leave ..
  | .now | .uuid4
  | .sleep _ | .getQuota _ | .fetchGpuQuota | .createTask _ => isTrue trivial

instance Steady.decidable (p : System cfg) : (l : Step cfg) → Decidable (Steady p l)
  | .crash _ => isFalse id
  | .run i e => inferInstanceAs (Decidable (∀ c ∈ p.calls (.run i e), c.1.keepsQuota _))
  | .arrive n => inferInstanceAs (Decidable (∀ c ∈ p.calls (.arrive n), c.1.keepsQuota _))

theorem handle_of_apply {m : TaskName} {r : RunId} (h : m.may cfg (.tf (.apply r))) :
    ∃ g, m = .handleQueuedRun r g := by
  cases m with
  | handleQueuedRun r' g => exact ⟨g, by rw [h r rfl]⟩
  | request req => cases req <;> exact h.elim
  | _ => exact h.elim

theorem handle_of_mayApply (cfg : Config) (m : TaskName) {r : RunId}
    (h : (m.body cfg).May (S := sig) (Applies r)) :
    ∃ g, m = .handleQueuedRun r g := by
  obtain ⟨op, hop, rfl⟩ := (body_calls cfg m).of_may h
  exact handle_of_apply hop

/-! ## What the poller goes by -/

/-- The counts the poller claims by, the types it has still to claim, and the quota it has read for
the type it claims next. -/
inductive Gate where
  | shut
  | counted (live : GpuType → Nat) (left : List GpuType)
  | priced (live : GpuType → Nat) (left : List GpuType) (g : GpuType) (quota : Int)

namespace Gate

def allows : Gate → Op → Prop
  | .priced live _ g quota, .db (.claimQueued g' limit) => g' = g ∧ limit = quota - live g
  | _, .db (.claimQueued ..) => False
  | .counted _ left, .getQuota g => g ∈ left
  | _, .getQuota _ => False
  | _, _ => True

def after : Gate → (op : Op) → op.Resp → Gate
  | _, .db .countLiveByType, .ok live => .counted live GpuType.all
  | .counted live left, .getQuota g, some quota => .priced live (left.filter (· ≠ g)) g quota
  | .counted live left, .getQuota g, none => .counted live (left.filter (· ≠ g))
  | .priced live left _ _, .db (.claimQueued ..), _ => .counted live left
  | γ, _, _ => γ

def count : Gate → GpuType → Option Nat
  | .shut, _ => none
  | .counted live left, g => if g ∈ left then some (live g) else none
  | .priced live left g' _, g => if g = g' ∨ g ∈ left then some (live g) else none

end Gate

def gating : Protocol sig Gate := ⟨Gate.allows, Gate.after⟩

def Ungated : Op → Prop
  | .db .countLiveByType | .db (.claimQueued ..) | .getQuota _ => False
  | _ => True

theorem Gate.ungated {γ : Gate} {op : Op} (h : Ungated op) :
    γ.allows op ∧ ∀ a, γ.after op a = γ := by
  cases op with
  | db q => cases q <;> first | exact h.elim | (cases γ <;> exact ⟨trivial, fun _ => rfl⟩)
  | getQuota => exact h.elim
  | _ => cases γ <;> exact ⟨trivial, fun _ => rfl⟩

theorem ungated_maintains {α : Type} {I : Gate → Prop} {p : Async α}
    (hp : p.Calls (S := sig) Ungated) : p.Maintains gating I :=
  hp.maintains fun γ op h hop => ⟨(Gate.ungated hop).1, fun a => by
    rw [show gating.post γ op a = γ from (Gate.ungated hop).2 a]; exact h⟩

theorem claimType_gating (live : GpuType → Nat) {g : GpuType} {rest : List GpuType}
    (hg : g ∉ rest) : (claimType live g).Follows gating
      (fun γ e => e.isOk → γ = .counted live rest) (.counted live (g :: rest)) := by
  have hfilter : (g :: rest).filter (· ≠ g) = rest := by
    rw [List.filter_cons_of_neg (by simp), List.filter_eq_self]
    intro x hx
    exact decide_eq_true fun h => hg (h ▸ hx)
  refine ⟨List.mem_cons_self, fun quota => ?_⟩
  cases quota with
  | none =>
    rw [show gating.post (.counted live (g :: rest)) (.getQuota g) none = .counted live rest from
      congrArg _ hfilter]
    exact fun _ => rfl
  | some quota =>
    rw [show gating.post (.counted live (g :: rest)) (.getQuota g) (some quota) =
      .priced live rest g quota from congrArg (Gate.priced live · g quota) hfilter]
    refine follows_query_bind ⟨rfl, rfl⟩ (fun claimed => ?_) nofun
    have hspawn : (Prog.forEach claimed fun c => createTask (.handleQueuedRun c.1 c.2)).Calls
        (S := sig) Ungated := Prog.calls_forEach fun _ _ => calls_emit trivial
    exact (ungated_maintains (I := (· = Gate.counted live rest)) hspawn).follows rfl
      fun _ _ h _ => h

theorem pollOnce_gating (cfg : Config) :
    (pollOnce cfg).Follows gating (fun _ _ => True) .shut := by
  refine follows_query_bind trivial (fun live => ?_) fun _ => trivial
  have hloop : (Prog.forEach GpuType.all (claimType live)).Follows gating (fun _ _ => True)
      (.counted live GpuType.all) := by
    refine Prog.follows_forEach (fun gs γ => gs.Nodup ∧ γ = .counted live gs) ?_ (fun _ _ => trivial)
      ⟨by decide, rfl⟩
    rintro g gs γ ⟨hnodup, rfl⟩
    obtain ⟨hg, hgs⟩ := List.nodup_cons.1 hnodup
    refine (claimType_gating live hg).mono fun γ e h => ?_
    cases e with
    | ok => exact ⟨hgs, h rfl⟩
    | error => trivial
  have hreap : ((reapStuckProvisioning cfg).bind fun _ => reapStuckRunning cfg).Calls
      (S := sig) Ungated :=
    Prog.calls_bind ⟨trivial, fun _ => calls_query_bind.2 ⟨trivial, fun _ =>
      Prog.calls_forEach fun _ _ => calls_emit trivial⟩⟩ fun _ =>
        ⟨trivial, fun _ => calls_query_bind.2 ⟨trivial, fun _ =>
          Prog.calls_forEach fun _ _ => calls_emit trivial⟩⟩
  refine Prog.follows_bind.2 (hloop.mono fun γ e _ => ?_)
  cases e with
  | ok => exact (ungated_maintains (I := fun _ => True) hreap).follows trivial fun _ _ _ => trivial
  | error => trivial

/-- The poller claims by its last count, each type once. -/
def gates (cfg : Config) : Watch (orchestrator cfg) Gate where
  protocol := gating
  start _ := .shut
  follows n := by
    by_cases hn : n = .pollTick
    · subst hn
      have hrest : ((sleep cfg.pollIntervalSeconds).bind fun _ => createTask .pollTick).Calls
        (S := sig) Ungated := ⟨trivial, fun _ => ⟨trivial, fun _ => trivial⟩⟩
      refine Prog.follows_bind.2 ((Prog.follows_tryCatch_any (pollOnce_gating cfg) fun _ =>
        Prog.maintains_pure ()).mono fun γ e _ => ?_)
      cases e with
      | ok =>
        exact (ungated_maintains (I := fun _ => True) hrest).follows trivial fun _ _ _ => trivial
      | error => trivial
    · refine (ungated_maintains (I := fun _ => True)
        ((body_calls cfg n).mono fun op h => ?_)).follows trivial fun _ _ _ => trivial
      cases n with
      | pollTick => exact absurd rfl hn
      | request req => cases req <;> cases op with
        | db q => cases q <;> first | exact h.elim | trivial
        | getQuota => exact h.elim
        | _ => trivial
      | _ => cases op with
        | db q => cases q <;> first | exact h.elim | trivial
        | getQuota => exact h.elim
        | _ => trivial

/-- The runs that may come to have a server: those that hold one, and those the poller has claimed
and not yet handed over. -/
def Pending (p : System cfg) (h : Nat → Holding) (r : RunId) : Prop :=
  Holds p r ∨ ∃ i < p.tasks.length, (h i).role = some .poll ∧ r ∈ (h i).tickets

/-- The pending runs of a type are no more than `n`. -/
def AtMost (p : System cfg) (h : Nat → Holding) (g : GpuType) (n : Int) : Prop :=
  ∃ ks : List RunId, (ks.length : Int) ≤ n ∧ ∀ r run, Pending p h r →
    p.world.db.runs.get r = some run → run.gpuTypeRequired = g → r ∈ ks

/-- The pending runs of each type fit into the quota, and the counts the poller goes by are no less
than the pending runs of the types it has still to claim. -/
structure Capacity (quota : GpuType → Option Int) (p : System cfg) (h : Nat → Holding)
    (γ : Nat → Gate) : Prop where
  fixed : p.world.quota = quota
  known : ∀ r, Pending p h r → ∃ run, p.world.db.runs.get r = some run
  fits : ∀ g, AtMost p h g (max 0 ((quota g).getD 0))
  counted : ∀ i < p.tasks.length, (h i).role = some .poll → ∀ g n, (γ i).count g = some n →
    AtMost p h g n
  priced : ∀ i < p.tasks.length, ∀ live left g q, γ i = .priced live left g q →
    quota g = some q ∧ g ∉ left

theorem AtMost.of_pending {p q : System cfg} {h h' : Nat → Holding} {g : GpuType} {n : Int}
    (hc : AtMost p h g n) (hknown : ∀ r, Pending p h r → ∃ run, p.world.db.runs.get r = some run)
    (hkept : ∀ r run, p.world.db.runs.get r = some run → ∃ run',
      q.world.db.runs.get r = some run' ∧ run'.gpuTypeRequired = run.gpuTypeRequired)
    (hp : ∀ r run', Pending q h' r → q.world.db.runs.get r = some run' →
      run'.gpuTypeRequired = g → Pending p h r) : AtMost q h' g n := by
  obtain ⟨ks, hlen, hks⟩ := hc
  refine ⟨ks, hlen, fun r run' hr hg' ht => ?_⟩
  have hr := hp r run' hr hg' ht
  obtain ⟨run, hg⟩ := hknown r hr
  obtain ⟨x, hx, hxt⟩ := hkept r run hg
  cases hx.symm.trans hg'
  exact hks r run hr hg (hxt.symm.trans ht)

section
variable {p : System cfg} {h : Nat → Holding} {i : Nat} {n : (orchestrator cfg).Name} {op : sig.Op}
  {next : sig.Resp op → Prog sig Exc Unit} {e : (orchestrator cfg).Env} {r : RunId}

theorem holds_after (ht : p.tasks[i]? = some ⟨n, .call op next⟩) (ha : (h i).allows op)
    (hr : Holds (p.after i n op next e) r) : Pending p h r := by
  rcases hr with hs | ⟨t, hmem, hmay⟩
  · by_cases hop : (op : Op) = .tf (.apply r)
    · exact .inl (.inr ⟨_, List.mem_of_getElem? ht, .inl hop⟩)
    · refine .inl (.inl ?_)
      cases op with
      | tf q => exact Cloud.server_run (fun hq => hop (congrArg _ hq)) hs
      | _ => exact hs
  · obtain ⟨j, hj⟩ := List.mem_iff_getElem?.1 hmem
    rcases Pool.getElem?_after hj with ⟨rfl, rfl⟩ | ⟨-, hj⟩ | ⟨-, m, hm, rfl⟩
    · exact .inl (.inr ⟨_, List.mem_of_getElem? ht, .inr ⟨_, hmay⟩⟩)
    · exact .inl (.inr ⟨t, List.mem_of_getElem? hj, hmay⟩)
    -- a new task that may apply the run is made by the poller, who has a ticket for it
    · obtain ⟨g, rfl⟩ := handle_of_mayApply cfg m hmay
      obtain rfl := created_eq hm
      exact .inr ⟨i, Pool.lt_of_getElem? ht, ha.2.1, ha.2.2 r (List.mem_singleton_self r)⟩

theorem pending_after (hJ : Exclusive p h) (ht : p.tasks[i]? = some ⟨n, .call op next⟩)
    (ha : (h i).allows op) (hr : Pending (p.after i n op next e) (held' p h i n op e) r) :
    Pending p h r ∨
      (∃ g limit, (op : Op) = .db (.claimQueued g limit)) ∧ r ∈ issued op (answer p i n op e) := by
  have hi := Pool.lt_of_getElem? ht
  rcases hr with hr | ⟨j, hj, hrole, hr⟩
  · exact .inl (holds_after ht ha hr)
  rcases hJ.tickets_after hi ha hj hr with ⟨hlt, hm, -⟩ | ⟨rfl, hs⟩ | ⟨rfl, -, m, rfl⟩
  · refine .inl (.inr ⟨j, hlt, ?_, hm⟩)
    by_cases hji : j = i
    · subst hji
      rw [held', Pool.ghost_self] at hrole
      exact role_of_roleAfter hrole (by decide)
    · rwa [held', Pool.ghost_other hji (Nat.ne_of_lt hlt)] at hrole
  · refine .inr ⟨?_, hs⟩
    rw [held', Pool.ghost_self] at hrole
    have hpoll : (h j).role = some .poll := role_of_roleAfter hrole (by decide)
    cases op with
    | db q =>
      cases q with
      | claimQueued g limit => exact ⟨g, limit, rfl⟩
      | getOrphanedProvisioning => cases hpoll.symm.trans ha
      | _ => cases hs
    | _ => cases hs
  -- the new tick has no ticket
  · rw [held', show ((orchestrator cfg).handle i n (.createTask m) e p.world).2.2 = some m from rfl,
      Pool.ghost_new hi] at hrole hr
    cases m with
    | pollTick => exact absurd hr List.not_mem_nil
    | _ => cases hrole

theorem limited_of_issued {g : GpuType} {limit : Int} {e : Env} {now : Time} {db : Db} {r : RunId}
    (hr : r ∈ issued (.db (.claimQueued g limit)) ((Query.claimQueued g limit).run e now db).1) :
    e.fault ≠ .before ∧ r ∈ limited e.pick (queuedIds db g) limit.toNat := by
  cases ha : ((Query.claimQueued g limit).run e now db).1 with
  | error x => rw [ha] at hr; cases hr
  | ok claimed =>
    rw [ha] at hr
    have hfault := Query.fault_of_ok ha
    have htx := Query.run_ok ha
    simp only [Query.tx, RunRepository.claimQueued] at htx
    split at htx
    · obtain ⟨rfl, -⟩ := Prod.mk.inj (Except.ok.inj htx)
      cases hr
    · obtain ⟨rfl, -⟩ := Prod.mk.inj (Except.ok.inj htx)
      exact ⟨hfault, by simpa [issued] using hr⟩

theorem quota_after (ht : p.tasks[i]? = some ⟨n, .call op next⟩) (hs : Steady p (.run i e)) :
    (p.after i n op next e).world.quota = p.world.quota := by
  cases op with
  | updateQuota live =>
    have hlive := hs _ (System.calls_run ht)
    exact funext fun g => hlive g (by cases g <;> simp [GpuType.all])
  | _ => rfl

/-- The poller counts with no ticket left, so everything pending holds a server. -/
theorem holds_of_pending (hJ : Exclusive p h) (hi : i < p.tasks.length)
    (hrole : (h i).role = some .poll) (hnone : (h i).tickets = []) (hr : Pending p h r) :
    Holds p r := by
  rcases hr with hr | ⟨j, hj, hrole', hm⟩
  · exact hr
  · obtain rfl := hJ.poller j hj i hi (by simp [hrole']) (by simp [hrole])
    rw [hnone] at hm
    cases hm

abbrev gated' (p : System cfg) (γ : Nat → Gate) (i : Nat) (n : (orchestrator cfg).Name) (op : sig.Op)
    (e : (orchestrator cfg).Env) : Nat → Gate :=
  Pool.ghost gating (fun _ : (orchestrator cfg).Name => Gate.shut) γ i op (answer p i n op e)
    p.tasks.length ((orchestrator cfg).handle i n op e p.world).2.2

theorem Gate.count_after {γ : Gate} {op : Op} {a : op.Resp} (ha : γ.allows op)
    (hcount : op ≠ .db .countLiveByType) {g : GpuType} {m : Nat}
    (h : (γ.after op a).count g = some m) : γ.count g = some m := by
  unfold Gate.after at h
  split at h
  · exact absurd rfl hcount
  · rename_i live left g' quota
    simp only [Gate.count, List.mem_filter, decide_eq_true_eq] at h ⊢
    split at h
    · rename_i hg
      rcases hg with rfl | hg
      · rwa [if_pos (show g ∈ left from ha)]
      · rwa [if_pos hg.1]
    · cases h
  · rename_i live left g'
    simp only [Gate.count, List.mem_filter, decide_eq_true_eq] at h ⊢
    split at h
    · rename_i hg
      rwa [if_pos hg.1]
    · cases h
  · rename_i live left g' quota g'' limit
    simp only [Gate.count] at h ⊢
    split at h
    · rename_i hg
      rwa [if_pos (.inr hg)]
    · cases h
  · exact h

/-- The quota that a claim goes by has just been read. -/
theorem priced_after {γ : Nat → Gate} {quota : GpuType → Option Int} (hfixed : p.world.quota = quota)
    (hγ : (γ i).allows op) (hpriced : ∀ live left g q, γ i = .priced live left g q →
      quota g = some q ∧ g ∉ left) {live : GpuType → Nat} {left : List GpuType} {g : GpuType} {q : Int}
    (h : (γ i).after op (answer p i n op e) = .priced live left g q) :
    quota g = some q ∧ g ∉ left := by
  generalize ha : answer p i n op e = a at h
  unfold Gate.after at h
  split at h
  · cases h
  · cases h
    refine ⟨?_, by simp⟩
    rw [← hfixed]
    exact ha
  · cases h
  · cases h
  · exact hpriced live left g q h

theorem atMost_of_count (hJ : Exclusive p h) (hi : i < p.tasks.length)
    (ha : (h i).allows (.db .countLiveByType))
    (hlive : ∀ run ∈ p.world.db.runs.rows, Holds p run.id → isLive run = true) (g : GpuType) :
    AtMost p h g (liveCount p.world.db g) := by
  refine ⟨liveIds p.world.db g, by rw [length_liveIds], fun r run hr hg ht => ?_⟩
  obtain ⟨hmem, rfl⟩ := Table.get_eq_some.1 hg
  exact mem_liveIds.2 ⟨run, hg, hlive run hmem (holds_of_pending hJ hi ha.1 ha.2 hr), ht⟩

section
variable {quota : GpuType → Option Int} {γ : Nat → Gate}

theorem counted_after (hJ : Exclusive p h) (ht : p.tasks[i]? = some ⟨n, .call op next⟩) (ha : (h i).allows op) (hγ : (γ i).allows op)
    (hcounted : Counted p (.run i e)) {j : Nat}
    (hj : j < (p.after i n op next e).tasks.length) (hrole : (held' p h i n op e j).role = some .poll)
    {g : GpuType} {m : Nat} (hm : (gated' p γ i n op e j).count g = some m) :
    (j < p.tasks.length ∧ (h j).role = some .poll ∧ (γ j).count g = some m) ∨ AtMost p h g m := by
  have hi := Pool.lt_of_getElem? ht
  rcases Pool.ghost_cases gating (fun _ : (orchestrator cfg).Name => Gate.shut) γ hi hj with
    ⟨rfl, hg⟩ | ⟨hne, hlt, hg⟩ | ⟨-, m', -, hg⟩
  · rw [show gated' p γ j n op e j = _ from hg] at hm
    rw [held', Pool.ghost_self] at hrole
    have hpoll : (h j).role = some .poll := role_of_roleAfter hrole (by decide)
    by_cases hcount : (op : Op) = .db .countLiveByType
    · subst hcount
      replace hm : ((γ j).after (.db .countLiveByType) (Query.run .countLiveByType e
        (p.world.clock + e.elapsed) p.world.db).1).count g = some m := hm
      cases hans : (Query.run .countLiveByType e (p.world.clock + e.elapsed) p.world.db).1 with
      | error x =>
        have hsame : (γ j).after (.db .countLiveByType) (.error x) = γ j := by cases γ j <;> rfl
        rw [hans, hsame] at hm
        exact .inl ⟨hi, hpoll, hm⟩
      | ok live =>
        have hnone : e.fault = .none := by
          cases hf : e.fault with
          | none => rfl
          | before | after =>
            rw [Query.run, Env.guard, hf] at hans
            cases hans
        have hlive := (hcounted e (System.queries_run ht)).resolve_left (absurd hnone)
        obtain ⟨rfl, -⟩ := Prod.mk.inj (Except.ok.inj (Query.run_ok hans))
        obtain rfl : liveCount p.world.db g = m := by
          have hall : g ∈ GpuType.all := by cases g <;> simp [GpuType.all]
          rw [hans] at hm
          exact Option.some.inj ((if_pos hall).symm.trans hm)
        exact .inr (atMost_of_count hJ hi ha hlive g)
    · exact .inl ⟨hi, hpoll, Gate.count_after hγ hcount hm⟩
  · rw [show gated' p γ i n op e j = _ from hg] at hm
    rw [held', Pool.ghost_other hne (Nat.ne_of_lt hlt)] at hrole
    exact .inl ⟨hlt, hrole, hm⟩
  · rw [show gated' p γ i n op e j = _ from hg] at hm
    cases hm

theorem not_counted_of_claim (hJ : Exclusive p h) (hc : Capacity quota p h γ) {g : GpuType}
    {limit : Int} {next : sig.Resp (.db (.claimQueued g limit)) → Prog sig Exc Unit}
    (ht : p.tasks[i]? = some ⟨n, .call (.db (.claimQueued g limit)) next⟩)
    (ha : (h i).allows (.db (.claimQueued g limit)))
    (hγ : (γ i).allows (.db (.claimQueued g limit))) {j : Nat}
    (hj : j < (p.after i n (.db (.claimQueued g limit)) next e).tasks.length)
    (hrole : (held' p h i n (.db (.claimQueued g limit)) e j).role = some .poll) {m : Nat} :
    (gated' p γ i n (.db (.claimQueued g limit)) e j).count g ≠ some m := by
  have hi := Pool.lt_of_getElem? ht
  rcases Pool.ghost_cases gating (fun _ : (orchestrator cfg).Name => Gate.shut) γ hi hj with
    ⟨rfl, hg⟩ | ⟨hne, hlt, -⟩ | ⟨-, m', hm', -⟩
  · rw [show gated' p γ j n (.db (.claimQueued g limit)) e j = _ from hg]
    cases hgate : γ j with
    | priced live left g' q =>
      rw [hgate] at hγ
      obtain ⟨rfl, -⟩ := hγ
      have hleft := (hc.priced j hi live left _ q hgate).2
      intro hm
      cases (if_neg hleft).symm.trans hm
    | _ => rw [hgate] at hγ; exact hγ.elim
  · rw [held', Pool.ghost_other hne (Nat.ne_of_lt hlt)] at hrole
    exact absurd (hJ.poller j hlt i hi (by simp [hrole]) (by simp [ha.1])) hne
  · cases hm'

/-- What a claim takes fits into the quota beside everything pending, by the count it goes by. -/
theorem fits_after_claim (hc : Capacity quota p h γ) {g : GpuType} {limit : Int}
    {next : sig.Resp (.db (.claimQueued g limit)) → Prog sig Exc Unit}
    (ht : p.tasks[i]? = some ⟨n, .call (.db (.claimQueued g limit)) next⟩)
    (hrole : (h i).role = some .poll) (hγ : (γ i).allows (.db (.claimQueued g limit)))
    (hkept : ∀ r run, p.world.db.runs.get r = some run → ∃ run',
      (p.after i n (.db (.claimQueued g limit)) next e).world.db.runs.get r = some run' ∧
        run'.gpuTypeRequired = run.gpuTypeRequired)
    (hpend : ∀ r, Pending (p.after i n (.db (.claimQueued g limit)) next e)
      (held' p h i n (.db (.claimQueued g limit)) e) r → Pending p h r ∨
        r ∈ limited e.pick (queuedIds p.world.db g) limit.toNat) :
    AtMost (p.after i n (.db (.claimQueued g limit)) next e)
      (held' p h i n (.db (.claimQueued g limit)) e) g (max 0 ((quota g).getD 0)) := by
  have hi := Pool.lt_of_getElem? ht
  by_cases hnone : limited e.pick (queuedIds p.world.db g) limit.toNat = []
  · refine (hc.fits g).of_pending hc.known hkept fun r _ hr _ _ => (hpend r hr).resolve_right ?_
    rw [hnone]
    exact List.not_mem_nil
  obtain ⟨live, left, q, hgate, hlimit⟩ : ∃ live left q, γ i = .priced live left g q ∧
      limit = q - live g := by
    cases hg : γ i with
    | priced live left g' q =>
      rw [hg] at hγ
      obtain ⟨rfl, rfl⟩ := hγ
      exact ⟨live, left, q, rfl, rfl⟩
    | _ => rw [hg] at hγ; exact hγ.elim
  obtain ⟨hquota, -⟩ := hc.priced i hi live left g q hgate
  obtain ⟨ks, hlen, hks⟩ := hc.counted i hi hrole g (live g) (by rw [hgate]; simp [Gate.count])
  have htaken : (limited e.pick (queuedIds p.world.db g) limit.toNat).length ≤ limit.toNat :=
    (length_limited ..).trans_le (min_le_left ..)
  have hpos : 0 < (limited e.pick (queuedIds p.world.db g) limit.toNat).length :=
    List.length_pos_of_ne_nil hnone
  refine ⟨ks ++ limited e.pick (queuedIds p.world.db g) limit.toNat, ?_, fun r run' hr hg' hty => ?_⟩
  · rw [hquota, List.length_append, Option.getD_some]
    omega
  · rcases hpend r hr with hr | hr
    · obtain ⟨run, hg⟩ := hc.known r hr
      obtain ⟨x, hx, hxt⟩ := hkept r run hg
      cases hx.symm.trans hg'
      exact List.mem_append_left _ (hks r run hr hg (hxt.symm.trans hty))
    · exact List.mem_append_right _ hr

theorem capacity_after (hJ : Exclusive p h) (hc : Capacity quota p h γ)
    (ht : p.tasks[i]? = some ⟨n, .call op next⟩) (ha : (h i).allows op) (hγ : (γ i).allows op)
    (hs : Steady p (.run i e)) (hcounted : Counted p (.run i e)) :
    Capacity quota (p.after i n op next e) (held' p h i n op e) (gated' p γ i n op e) := by
  have hi := Pool.lt_of_getElem? ht
  have hstep : p.step (.run i e) = some (p.after i n op next e) := Pool.step_run ht
  have hkept : ∀ r run, p.world.db.runs.get r = some run →
      ∃ run', (p.after i n op next e).world.db.runs.get r = some run' ∧
        run'.gpuTypeRequired = run.gpuTypeRequired := fun _ _ hr => System.run_step hstep hr
  have hpend := fun r hr => pending_after (r := r) (e := e) hJ ht ha hr
  have hpriced : ∀ j < (p.after i n op next e).tasks.length, ∀ live left g q,
      gated' p γ i n op e j = .priced live left g q → quota g = some q ∧ g ∉ left := by
    intro j hj live left g q hgate
    rcases Pool.ghost_cases gating (fun _ : (orchestrator cfg).Name => Gate.shut) γ hi hj with
      ⟨rfl, hg⟩ | ⟨-, hlt, hg⟩ | ⟨-, m, -, hg⟩
    · exact priced_after hc.fixed hγ (hc.priced j hi) (hg.symm.trans hgate)
    · exact hc.priced j hlt live left g q (hg.symm.trans hgate)
    · cases hg.symm.trans hgate
  have hother : ∀ g, (¬ ∃ limit, (op : Op) = .db (.claimQueued g limit)) → ∀ r run',
      Pending (p.after i n op next e) (held' p h i n op e) r →
      (p.after i n op next e).world.db.runs.get r = some run' → run'.gpuTypeRequired = g →
      Pending p h r := by
    intro g hclaim r run' hr hg' hty
    refine (hpend r hr).resolve_right ?_
    rintro ⟨⟨g', limit, rfl⟩, hissued⟩
    obtain ⟨run, hg, -, hty'⟩ := mem_queuedIds.1 (limited_subset (limited_of_issued hissued).2)
    obtain ⟨x, hx, hxt⟩ := hkept r run hg
    cases hx.symm.trans hg'
    obtain rfl : g' = g := hty'.symm.trans (hxt.symm.trans hty)
    exact hclaim ⟨limit, rfl⟩
  refine ⟨(quota_after ht hs).trans hc.fixed, fun r hr => ?_, ?_, ?_, hpriced⟩
  · obtain ⟨run, hg⟩ : ∃ run, p.world.db.runs.get r = some run := by
      rcases hpend r hr with hr | ⟨⟨g, limit, rfl⟩, hr⟩
      · exact hc.known r hr
      · obtain ⟨run, hg, -⟩ := mem_queuedIds.1 (limited_subset (limited_of_issued hr).2)
        exact ⟨run, hg⟩
    obtain ⟨run', hg', -⟩ := hkept r run hg
    exact ⟨run', hg'⟩
  · intro g
    by_cases hclaim : ∃ limit, (op : Op) = .db (.claimQueued g limit)
    · obtain ⟨limit, rfl⟩ := hclaim
      exact fits_after_claim hc ht ha.1 hγ hkept fun r hr => (hpend r hr).imp_right fun h =>
        (limited_of_issued h.2).2
    · exact (hc.fits g).of_pending hc.known hkept (hother g hclaim)
  · intro j hj hrole g m hm
    by_cases hclaim : ∃ limit, (op : Op) = .db (.claimQueued g limit)
    · -- a claim uses up the count of its type
      obtain ⟨limit, rfl⟩ := hclaim
      exact absurd hm (not_counted_of_claim hJ hc ht ha hγ hj hrole)
    · rcases counted_after hJ ht ha hγ hcounted hj hrole hm with ⟨hlt, hrole, hm⟩ | hat
      · exact (hc.counted j hlt hrole g m hm).of_pending hc.known hkept (hother g hclaim)
      · exact hat.of_pending hc.known hkept (hother g hclaim)

end

end

theorem capacity_boot (cfg : Config) (w : World) (hw : ∀ r, w.cloud.server r = false) :
    Capacity w.quota (System.start cfg w) (fun _ => TaskName.holding .pollingLoop)
      fun _ => .shut := by
  have hnone : ∀ r, ¬ Pending (System.start cfg w) (fun _ => TaskName.holding .pollingLoop) r := by
    rintro r ((hs | ⟨t, ht, hm⟩) | ⟨i, -, hrole, -⟩)
    · cases (hw r).symm.trans hs
    · obtain rfl := List.mem_singleton.1 ht
      obtain ⟨g, hg⟩ := handle_of_mayApply cfg .pollingLoop hm
      cases hg
    · cases hrole
  refine ⟨rfl, fun r hr => absurd hr (hnone r), fun g => ⟨[], le_max_left _ _, fun r _ hr =>
    absurd hr (hnone r)⟩, fun i hi hrole => ?_, fun i hi live left g q hg => ?_⟩
  · cases hrole
  · cases hg

theorem capacity_arrive {quota : GpuType → Option Int} {p : System cfg} {h : Nat → Holding}
    {γ : Nat → Gate} (hc : Capacity quota p h γ) (req : Request) :
    Capacity quota
      ⟨p.world, p.tasks ++ [Coroutine.Task.spawn (M := orchestrator cfg) (.request req)]⟩
      (Function.update h p.tasks.length (TaskName.holding (.request req)))
      (Function.update γ p.tasks.length .shut) := by
  have hkept : ∀ r run, p.world.db.runs.get r = some run → ∃ run',
      p.world.db.runs.get r = some run' ∧ run'.gpuTypeRequired = run.gpuTypeRequired :=
    fun r run hg => ⟨run, hg, rfl⟩
  have hpend : ∀ r, Pending
      ⟨p.world, p.tasks ++ [Coroutine.Task.spawn (M := orchestrator cfg) (.request req)]⟩
      (Function.update h p.tasks.length (TaskName.holding (.request req))) r → Pending p h r := by
    rintro r ((hs | ⟨t, ht, hm⟩) | ⟨i, hi, hrole, hm⟩)
    · exact .inl (.inl hs)
    · rcases List.mem_append.1 ht with ht | ht
      · exact .inl (.inr ⟨t, ht, hm⟩)
      · obtain rfl := List.mem_singleton.1 ht
        obtain ⟨g, hg⟩ := handle_of_mayApply cfg (.request req) hm
        cases hg
    -- a request holds no role
    · rcases Pool.update_cases hi with ⟨hlt, hg⟩ | ⟨-, hg⟩
      · rw [hg] at hrole hm
        exact .inr ⟨i, hlt, hrole, hm⟩
      · rw [hg] at hrole
        cases hrole
  refine ⟨hc.fixed, fun r hr => hc.known r (hpend r hr), fun g => (hc.fits g).of_pending hc.known
    hkept fun r _ hr _ _ => hpend r hr, fun i hi hrole g m hm => ?_, fun i hi live left g q hg => ?_⟩
  · rcases Pool.update_cases (g := h) (γ := TaskName.holding (.request req)) hi with
      ⟨hlt, hg⟩ | ⟨-, hg⟩
    · rw [hg] at hrole
      rw [Function.update_of_ne (Nat.ne_of_lt hlt)] at hm
      exact (hc.counted i hlt hrole g m hm).of_pending hc.known hkept fun r _ hr _ _ => hpend r hr
    · rw [hg] at hrole
      cases hrole
  · rcases Pool.update_cases (g := γ) (γ := Gate.shut) hi with ⟨hlt, hg'⟩ | ⟨-, hg'⟩
    · exact hc.priced i hlt live left g q (hg'.symm.trans hg)
    · cases hg'.symm.trans hg

def tickets (cfg : Config) : Watch (orchestrator cfg) Holding where
  protocol := exclusion
  start := TaskName.holding
  follows := body_follows cfg

/-- Started without servers, and as long as every run that holds a server is counted, the servers of
each type are no more than its quota, and each belongs to a run of the database. -/
theorem vms_le_quota {w : World} {p : System cfg} (hw : ∀ r, w.cloud.server r = false)
    (h : Pool.Reach (fun p l => Steady p l ∧ Counted p l) (System.start cfg w) p) :
    (∀ g, (vms p.world g : Int) ≤ max 0 ((w.quota g).getD 0)) ∧
    ∀ r, p.world.cloud.server r = true → ∃ run, p.world.db.runs.get r = some run := by
  obtain ⟨g, hg⟩ := Pool.reachWith_of_reach ((tickets cfg).prod (gates cfg))
    ((tickets cfg).prod (gates cfg)).boot h
  obtain ⟨-, hc⟩ := hg.invariant (Pool.TrackedTo.boot _ ((tickets cfg).prod (gates cfg)).follows)
    (J := fun p g => Exclusive p (fun k => (g k).1) ∧
      Capacity w.quota p (fun k => (g k).1) fun k => (g k).2)
    ⟨exclusive_boot cfg _ rfl, capacity_boot cfg w hw⟩
    (fun p g i e n op next _ hI ht ha hC => by
      simp only [Watch.ghost_prod]
      exact ⟨hI.1.after ht ha.1, capacity_after hI.1 hI.2 ht ha.1 ha.2 hC.1 hC.2⟩)
    (fun p g n hI hn _ => by
      cases n with
      | request req =>
        show Exclusive _ (Prod.fst ∘ Function.update g _ _) ∧
          Capacity _ _ (Prod.fst ∘ Function.update g _ _) (Prod.snd ∘ Function.update g _ _)
        rw [Function.comp_update, Function.comp_update]
        exact ⟨exclusive_arrive hI.1 req, capacity_arrive hI.2 req⟩
      | _ => cases hn)
    fun p g e _ hC => hC.1.elim
  refine ⟨fun t => ?_, fun r hr => hc.known r (.inl (.inl hr))⟩
  obtain ⟨ks, hlen, hks⟩ := hc.fits t
  refine le_trans ?_ hlen
  have hcount : vms p.world t ≤ p.world.db.runs.rows.countP fun run => run.id ∈ ks := by
    refine List.countP_mono_left fun run hrun hv => ?_
    obtain ⟨hty, hs⟩ := of_decide_eq_true hv
    exact decide_eq_true (hks run.id run (.inl (.inl hs)) (Table.get_eq_some.2 ⟨hrun, rfl⟩) hty)
  exact_mod_cast hcount.trans (p.world.db.runs.countP_mem_le ks)

/-- A run out of provisioning and running has neither a server nor an attempt. -/
def HoldsNothing (p : System cfg) : Prop :=
  ∀ run ∈ p.world.db.runs.rows, isLive run = true ∨ p.world.cloud.server run.id = false ∧
    ∀ g ∈ GpuType.all, TaskName.handleQueuedRun run.id g ∉ p.taskNames

instance HoldsNothing.decidable (p : System cfg) : Decidable (HoldsNothing p) :=
  inferInstanceAs (Decidable (∀ run ∈ p.world.db.runs.rows, _))

theorem reach_counted {w : World} {p : System cfg}
    (h : Pool.Reach (fun p l => Steady p l ∧ HoldsNothing p) (System.start cfg w) p) :
    Pool.Reach (fun p l => Steady p l ∧ Counted p l) (System.start cfg w) p := by
  induction h with
  | init => exact .init
  | step l hr hc hs ih =>
    refine ih.step l ⟨hc.1, fun e _ => .inr fun run hrun hheld => ?_⟩ hs
    refine (hc.2 run hrun).resolve_right fun hfree => ?_
    rcases hheld with hserver | ⟨t, ht, hmay⟩
    · exact absurd hserver (by simp [hfree.1])
    · obtain ⟨i, hi⟩ := List.mem_iff_getElem?.1 ht
      obtain ⟨op, hop, rfl⟩ := (hr.calls (body_calls cfg) hi).of_may hmay
      obtain ⟨g, hname⟩ := handle_of_apply hop
      exact hfree.2 g (by cases g <;> simp [GpuType.all]) (hname ▸ List.mem_map_of_mem ht)

namespace Sample

/-- Run 7 is running when run 8 is created and the next tick counts and claims. -/
def full : List (Step config) :=
  running 7 ++ .arrive (.request (.createRun ⟨"m", 8, .vllm, "s.yaml", none⟩)) ::
    .run 5 { uuid := 8 } :: steps 5 2 ++ steps 4 5

end Sample

open Sample in
theorem vms_of_full :
    let p := start.play full
    p.world.db.status 8 = some .queued ∧ vms p.world .L40S = 1 ∧
      (vms p.world .L40S : Int) ≤ max 0 1 := by
  have hreach := Pool.reach_play_of_obeys (C := fun p l => Steady p l ∧ HoldsNothing p) start full
    (by decide +kernel) (by decide +kernel)
  exact ⟨by decide +kernel, by decide +kernel,
    (vms_le_quota (w := world) (fun _ => rfl) (reach_counted hreach)).1 .L40S⟩

/-- Run 7 is done and its release not yet through when the tick claims run 8 and applies it. -/
theorem vms_exceed_quota : ¬ ∀ p : System Sample.config, Pool.Reach Steady Sample.start p →
    ∀ g, (vms p.world g : Int) ≤ max 0 ((Sample.world.quota g).getD 0) := by
  intro h
  have hp : (Sample.start.exec (Sample.completed 7 ++
    .arrive (.request (.createRun ⟨"m", 8, .vllm, "s.yaml", none⟩)) :: .run 7 { uuid := 8 } ::
      Sample.steps 7 2 ++ Sample.steps 4 4 ++ Sample.steps 8 8)).isSome := by decide
  exact absurd (h _ (Pool.reach_play_of_obeys _ _ hp (by decide)) .L40S) (by decide)

end GrillPlatform
