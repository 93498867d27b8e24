import GrillPlatform.Coroutine.Solo
import GrillPlatform.RunRows

/-! The capacity gate: what one pass of the claim loop of `poll_once` does while other tasks take
runs out of provisioning and running. -/

namespace GrillPlatform
open Coroutine RunRepository
variable {cfg : Config} {w w' : World}

def claimLoop : Async Unit := do
  let live ← query .countLiveByType
  Prog.forEach GpuType.all (claimType live)

theorem pollOnce_eq (cfg : Config) : pollOnce cfg = claimLoop.bind fun _ =>
    (reapStuckProvisioning cfg).bind fun _ => reapStuckRunning cfg :=
  (Prog.bind_assoc _ _ _).symm

/-- What the others do between two calls of the loop: they start no run. -/
structure Departs (w w' : World) : Prop where
  quota : w'.quota = w.quota
  kept : ∀ r run, w.db.runs.get r = some run →
    ∃ run', w'.db.runs.get r = some run' ∧ run'.gpuTypeRequired = run.gpuTypeRequired
  live : ∀ r run', w'.db.runs.get r = some run' → isLive run' = true →
    ∃ run, w.db.runs.get r = some run ∧ isLive run = true

theorem Departs.of_same (hq : w'.quota = w.quota) (hdb : w'.db = w.db) : Departs w w' :=
  ⟨hq, fun _ run h => ⟨run, hdb ▸ h, rfl⟩, fun _ run' h hl => ⟨run', hdb ▸ h, hl⟩⟩

theorem Departs.trans {w'' : World} (h : Departs w w') (h' : Departs w' w'') : Departs w w'' where
  quota := h'.quota.trans h.quota
  kept r run hr := by
    obtain ⟨run', hr', ht⟩ := h.kept r run hr
    obtain ⟨run'', hr'', ht'⟩ := h'.kept r run' hr'
    exact ⟨run'', hr'', ht'.trans ht⟩
  live r run'' hr hl := by
    obtain ⟨run', hr', hl'⟩ := h'.live r run'' hr hl
    exact h.live r run' hr' hl'

/-- The call claims, or starts a run that is not live. -/
def Query.starts (db : Db) : Query → Prop
  | .claimQueued .. => True
  | .setRunning r _ => ∃ run, db.runs.get r = some run ∧ isLive run = false
  | .runCreate run => isLive run = true
  | _ => False

/-- Every other step of the system is such a departure, in the database. -/
theorem departs_step {p q : System cfg} {l : Step cfg} (h : p.step l = some q)
    (hq : q.world.quota = p.world.quota)
    (hc : ∀ c ∈ p.queries l, ¬ c.1.starts p.world.db) : Departs p.world q.world := by
  refine ⟨hq, fun r run hr => System.run_step h hr, fun r run' hr hl => ?_⟩
  rcases System.step_db h with he | ⟨c, e, t, a, hcall, ha⟩
  · exact ⟨run', he ▸ hr, hl⟩
  · rcases c.rowStep ha r with he | ⟨x, y, hx, hy, hw⟩ | ⟨run, rfl, -, -, hy⟩
    · exact ⟨run', he.symm.trans hr, hl⟩
    · cases hy.symm.trans hr
      refine ⟨x, hx, ?_⟩
      obtain rfl := Table.key_of_get hx
      have hno := hc _ hcall
      by_contra hdead
      rw [Bool.not_eq_true] at hdead
      cases hw with
      | claim => exact hno trivial
      | running => exact hno ⟨x, hx, hdead⟩
      | _ => simp_all [isLive]
    · cases hy.symm.trans hr
      exact absurd hl (hc _ hcall)

/-- A claim of the loop: its limit, what it took, and the database around it. -/
structure TypeClaim where
  gpuType : GpuType
  limit : Int
  taken : List RunId
  before : Db
  after : Db

/-- The world, with a record of the loop's count, its claims and the tasks it has created. -/
structure Watched where
  world : World
  live : GpuType → Nat := fun _ => 0
  claims : List TypeClaim := []
  created : List TaskName := []

def takenRuns : Except Exc (List (RunId × GpuType)) → List RunId
  | .ok claimed => claimed.map Prod.fst
  | .error _ => []

def Watched.record (s : Watched) (before after : Db) : (op : Op) → op.Resp → Watched
  | .db .countLiveByType, _ => { s with live := liveCount before }
  | .db (.claimQueued g limit), a =>
    { s with claims := s.claims ++ [⟨g, limit, takenRuns a, before, after⟩] }
  | .createTask n, _ => { s with created := s.created ++ [n] }
  | _, _ => s

/-- A call that comes after whatever the others have done. -/
def amid (cfg : Config) (op : Op) (e : Env × (World → World)) (s : Watched) : op.Resp × Watched :=
  let w := { e.2 s.world with clock := (e.2 s.world).clock + e.1.elapsed }
  let r := World.call cfg 0 e.1 w op
  (r.1, { s with world := r.2 }.record w.db r.2.db op r.1)

def liveIds (db : Db) (g : GpuType) : List RunId :=
  (db.runs.rows.filter fun run => isLive run ∧ run.gpuTypeRequired = g).map Run.id

theorem length_liveIds (db : Db) (g : GpuType) : (liveIds db g).length = liveCount db g := by
  rw [liveIds, List.length_map, liveCount, List.countP_eq_length_filter]

theorem mem_liveIds {db : Db} {g : GpuType} {r : RunId} : r ∈ liveIds db g ↔
    ∃ run, db.runs.get r = some run ∧ isLive run = true ∧ run.gpuTypeRequired = g := by
  simp only [liveIds, List.mem_map, List.mem_filter, decide_eq_true_eq, Table.get_eq_some]
  constructor
  · rintro ⟨run, ⟨hm, hl⟩, rfl⟩
    exact ⟨run, ⟨hm, rfl⟩, hl⟩
  · rintro ⟨run, ⟨hm, rfl⟩, hl⟩
    exact ⟨run, ⟨hm, hl⟩, rfl⟩

theorem liveCount_le {db : Db} {g : GpuType} {ks : List RunId} (h : liveIds db g ⊆ ks) :
    liveCount db g ≤ ks.length := by
  refine le_trans (List.countP_mono_left fun run hrun hl => ?_) (db.runs.countP_mem_le ks)
  have hlive := of_decide_eq_true hl
  exact decide_eq_true (h (mem_liveIds.2 ⟨run, Table.get_eq_some.2 ⟨hrun, rfl⟩, hlive⟩))

theorem Departs.liveCount (h : Departs w w') (g : GpuType) :
    liveCount w'.db g ≤ liveCount w.db g := by
  rw [← length_liveIds w.db]
  refine liveCount_le fun r hr => ?_
  obtain ⟨run', hg', hl', ht'⟩ := mem_liveIds.1 hr
  obtain ⟨run, hg, hl⟩ := h.live r run' hg' hl'
  obtain ⟨x, hx, hxt⟩ := h.kept r run hg
  cases hx.symm.trans hg'
  exact mem_liveIds.2 ⟨run, hg, hl, hxt.symm.trans ht'⟩

def Run.claimed (now : Time) (run : Run) : Run :=
  { run with status := .provisioning, provisioningStartedAt := some now }

/-- What a claim with a given free quota does: how many runs it takes, which, and all it writes. -/
structure TypeClaim.Fair (c : TypeClaim) (free : Int) : Prop where
  count : (c.taken.length : Int) = min (max 0 free) (queuedIds c.before c.gpuType).length
  nodup : c.taken.Nodup
  queued : c.taken ⊆ queuedIds c.before c.gpuType
  writes : ∃ now, ∀ r, c.after.runs.get r = (c.before.runs.get r).map fun run =>
    if r ∈ c.taken then run.claimed now else run
  nodes : c.after.nodes = c.before.nodes
  results : c.after.results = c.before.results

theorem fair_of_tx {g : GpuType} {limit : Int} {pick : List RunId} {now : Time} {db db' : Db}
    {claimed : List (RunId × GpuType)}
    (h : claimQueued g limit pick now db = .ok (claimed, db')) :
    TypeClaim.Fair ⟨g, limit, claimed.map Prod.fst, db, db'⟩ limit ∧ ∀ c ∈ claimed, c.2 = g := by
  unfold claimQueued at h
  split at h
  · rename_i hl
    cases h
    refine ⟨⟨?_, List.nodup_nil, List.nil_subset _, ⟨now, fun r => ?_⟩, rfl, rfl⟩,
      fun c hc => absurd hc List.not_mem_nil⟩
    · simp only [List.map_nil, List.length_nil]
      omega
    · simp
  · rename_i hl
    cases h
    have hfst : ((limited pick (queuedIds db g) limit.toNat).map (·, g)).map Prod.fst =
        limited pick (queuedIds db g) limit.toNat := by
      rw [List.map_map]
      exact List.map_id _
    refine ⟨⟨?_, ?_, ?_, ⟨now, fun r => ?_⟩, rfl, rfl⟩, ?_⟩
    · show ((List.map Prod.fst _).length : Int) = min (max 0 limit) (queuedIds db g).length
      rw [hfst, length_limited]
      omega
    · rw [hfst]
      exact limited_nodup (queuedIds_nodup db g)
    · rw [hfst]
      exact limited_subset
    · rw [hfst, Db.get_modifyRuns]
      cases hg : db.runs.get r with
      | none => rfl
      | some run =>
        obtain rfl := Table.key_of_get hg
        simp [Run.claimed]
    · intro c hc
      obtain ⟨r, -, rfl⟩ := List.mem_map.1 hc
      rfl

theorem TypeClaim.Fair.kept {c : TypeClaim} {free : Int} (h : c.Fair free) {r : RunId} {run : Run}
    (hr : c.before.runs.get r = some run) :
    ∃ run', c.after.runs.get r = some run' ∧ run'.gpuTypeRequired = run.gpuTypeRequired := by
  obtain ⟨now, hw⟩ := h.writes
  refine ⟨_, (hw r).trans (by rw [hr]; rfl), ?_⟩
  split <;> rfl

theorem TypeClaim.Fair.typed {c : TypeClaim} {free : Int} (h : c.Fair free) {r : RunId}
    (hr : r ∈ c.taken) :
    ∃ run, c.after.runs.get r = some run ∧ run.gpuTypeRequired = c.gpuType := by
  obtain ⟨run, hg, -, ht⟩ := mem_queuedIds.1 (h.queued hr)
  obtain ⟨run', hg', ht'⟩ := h.kept hg
  exact ⟨run', hg', ht'.trans ht⟩

theorem TypeClaim.Fair.liveCount {c : TypeClaim} {free : Int} (h : c.Fair free) (g : GpuType) :
    liveCount c.after g ≤ liveCount c.before g + if c.gpuType = g then c.taken.length else 0 := by
  have hsub : liveIds c.after g ⊆ liveIds c.before g ++ if c.gpuType = g then c.taken else [] := by
    intro r hr
    obtain ⟨run', hg', hl, ht⟩ := mem_liveIds.1 hr
    obtain ⟨now, hw⟩ := h.writes
    by_cases hm : r ∈ c.taken
    · obtain ⟨x, hx, hxt⟩ := h.typed hm
      cases hx.symm.trans hg'
      rw [if_pos (hxt.symm.trans ht)]
      exact List.mem_append_right _ hm
    · refine List.mem_append_left _ (mem_liveIds.2 ⟨run', ?_, hl, ht⟩)
      rw [hw r] at hg'
      simpa [hm] using hg'
  have hlen := liveCount_le hsub
  rw [List.length_append, length_liveIds] at hlen
  split at hlen <;> simp_all

/-! ## The loop -/

def TypeClaim.tasks (c : TypeClaim) : List TaskName := c.taken.map (.handleQueuedRun · c.gpuType)

/-- What holds when the loop is through with the types `seen`. -/
structure Gated (quota : GpuType → Option Int) (live : GpuType → Nat) (seen : List GpuType)
    (s : Watched) : Prop where
  fixed : s.world.quota = quota
  counted : s.live = live
  types : s.claims.map TypeClaim.gpuType = seen.filter fun g => (quota g).isSome
  fair : ∀ c ∈ s.claims, ∀ q, quota c.gpuType = some q → c.Fair (q - live c.gpuType)
  typed : ∀ c ∈ s.claims, ∀ r ∈ c.taken, ∃ run, s.world.db.runs.get r = some run ∧
    run.gpuTypeRequired = c.gpuType
  nodup : (s.claims.flatMap TypeClaim.taken).Nodup
  before : ∀ g, g ∉ seen → liveCount s.world.db g ≤ live g
  after : ∀ g, (liveCount s.world.db g : Int) ≤ max (live g : Int) ((quota g).getD 0)

section
variable {quota : GpuType → Option Int} {live : GpuType → Nat} {seen : List GpuType} {s : Watched}

theorem Gated.departs (h : Gated quota live seen s) {w : World} (hd : Departs s.world w)
    (created : List TaskName) : Gated quota live seen { s with world := w, created } where
  fixed := hd.quota.trans h.fixed
  counted := h.counted
  types := h.types
  fair := h.fair
  typed c hc r hr := by
    obtain ⟨run, hg, ht⟩ := h.typed c hc r hr
    obtain ⟨run', hg', ht'⟩ := hd.kept r run hg
    exact ⟨run', hg', ht'.trans ht⟩
  nodup := h.nodup
  before g hg := (hd.liveCount g).trans (h.before g hg)
  after g := le_trans (by exact_mod_cast hd.liveCount g) (h.after g)

theorem Gated.pass (h : Gated quota live seen s) {g : GpuType} (hq : quota g = none) :
    Gated quota live (seen ++ [g]) s where
  fixed := h.fixed
  counted := h.counted
  types := by rw [h.types, List.filter_append]; simp [hq]
  fair := h.fair
  typed := h.typed
  nodup := h.nodup
  before g' hg' := h.before g' fun hm => hg' (List.mem_append_left _ hm)
  after := h.after

theorem Gated.claim (h : Gated quota live seen s) {c : TypeClaim} {q : Int} {w : World}
    (hnew : c.gpuType ∉ seen) (hq : quota c.gpuType = some q) (hc : c.Fair (q - live c.gpuType))
    (hbefore : c.before = s.world.db) (hafter : c.after = w.db) (hw : w.quota = s.world.quota) :
    Gated quota live (seen ++ [c.gpuType]) { s with world := w, claims := s.claims ++ [c] } where
  fixed := hw.trans h.fixed
  counted := h.counted
  types := by
    rw [List.map_append, h.types, List.filter_append]
    simp [hq]
  fair := by
    intro c' hc' q' hq'
    rcases List.mem_append.1 hc' with hc' | hc'
    · exact h.fair c' hc' q' hq'
    · obtain rfl := List.mem_singleton.1 hc'
      cases hq.symm.trans hq'
      exact hc
  typed := by
    intro c' hc' r hr
    rcases List.mem_append.1 hc' with hc' | hc'
    · obtain ⟨run, hg, ht⟩ := h.typed c' hc' r hr
      obtain ⟨run', hg', ht'⟩ := hc.kept (hbefore ▸ hg)
      exact ⟨run', hafter ▸ hg', ht'.trans ht⟩
    · obtain rfl := List.mem_singleton.1 hc'
      obtain ⟨run, hg, ht⟩ := hc.typed hr
      exact ⟨run, hafter ▸ hg, ht⟩
  nodup := by
    rw [List.flatMap_append, List.flatMap_singleton]
    refine h.nodup.append hc.nodup fun r hr hr' => hnew ?_
    -- a run taken before is of another type
    obtain ⟨c', hc', hm⟩ := List.mem_flatMap.1 hr
    obtain ⟨run, hg, ht⟩ := h.typed c' hc' r hm
    obtain ⟨run', hg', -, ht'⟩ := mem_queuedIds.1 (hc.queued hr')
    rw [hbefore, hg] at hg'
    cases hg'
    have hmem : c'.gpuType ∈ s.claims.map TypeClaim.gpuType := List.mem_map_of_mem hc'
    rw [h.types] at hmem
    rw [← ht', ht]
    exact (List.mem_filter.1 hmem).1
  before g hg := by
    have hg' : g ∉ seen ∧ c.gpuType ≠ g := by
      simp only [List.mem_append, List.mem_singleton, not_or] at hg
      exact ⟨hg.1, Ne.symm hg.2⟩
    have hlive := hc.liveCount g
    rw [hafter, hbefore, if_neg hg'.2, Nat.add_zero] at hlive
    exact hlive.trans (h.before g hg'.1)
  after g := by
    have hlive := hc.liveCount g
    rw [hafter, hbefore] at hlive
    by_cases hg : c.gpuType = g
    · subst hg
      rw [if_pos rfl] at hlive
      have hold := h.before c.gpuType hnew
      have hcount := hc.count
      rw [hq, Option.getD_some]
      show ((liveCount w.db c.gpuType : Nat) : Int) ≤ _
      omega
    · rw [if_neg hg, Nat.add_zero] at hlive
      exact le_trans (by exact_mod_cast hlive) (h.after g)

end

/-- The others only take runs out of provisioning and running, at every call. -/
def Leaving (ω : Nat → Env × (World → World)) : Prop := ∀ k v, Departs v ((ω k).2 v)

section
variable {s s' : Watched} {ω ω' : Nat → Env × (World → World)} {u : Unit}

theorem createTasks_ok (hω : Leaving ω) {claimed : List (RunId × GpuType)}
    (h : (Prog.forEach claimed fun c => createTask (.handleQueuedRun c.1 c.2)).exec (S := sig)
      (amid cfg) ω s = (.ok u, s', ω')) :
    ∃ w, Departs s.world w ∧ s' = { s with
      world := w, created := s.created ++ claimed.map fun c => .handleQueuedRun c.1 c.2 } := by
  induction claimed generalizing ω s with
  | nil =>
    cases h
    exact ⟨_, .of_same rfl rfl, by rw [List.map_nil, List.append_nil]⟩
  | cons c claimed ih =>
    obtain ⟨w, hd, hs⟩ := ih (fun k => hω (k + 1)) h
    have hfirst :
        Departs s.world (amid cfg (.createTask (.handleQueuedRun c.1 c.2)) (ω 0) s).2.world :=
      (hω 0 s.world).trans (.of_same rfl rfl)
    refine ⟨w, hfirst.trans hd, hs.trans ?_⟩
    simp [amid, Watched.record]

theorem claimQuery_ok {g : GpuType} {limit : Int} {claimed : List (RunId × GpuType)}
    (h : (query (.claimQueued g limit)).exec (S := sig) (amid cfg) ω s =
      (.ok claimed, s', ω')) :
    ω' = (fun k => ω (k + 1)) ∧ ∃ c w, c.gpuType = g ∧ c.Fair limit ∧
      c.before = ((ω 0).2 s.world).db ∧ c.after = w.db ∧ w.quota = ((ω 0).2 s.world).quota ∧
      s' = { s with world := w, claims := s.claims ++ [c] } ∧
      claimed.map (fun r => TaskName.handleQueuedRun r.1 r.2) = c.tasks := by
  obtain ⟨ha, hs⟩ := Prod.mk.inj ((Prog.exec_ofExcept _ _ _).symm.trans h)
  obtain ⟨rfl, rfl⟩ := Prod.mk.inj hs
  obtain ⟨hfair, htypes⟩ := fair_of_tx (Query.run_ok ha)
  have htaken : takenRuns (amid cfg (.db (.claimQueued g limit)) (ω 0) s).1 =
      claimed.map Prod.fst := congrArg takenRuns ha
  rw [← htaken] at hfair
  refine ⟨rfl, _, (amid cfg (.db (.claimQueued g limit)) (ω 0) s).2.world, rfl, hfair,
    rfl, rfl, rfl,
    rfl, ?_⟩
  show _ = (takenRuns _).map _
  rw [htaken, List.map_map]
  exact List.map_congr_left fun c hc => by rw [Function.comp_apply, ← htypes c hc]

theorem claimType_ok {quota : GpuType → Option Int} {live : GpuType → Nat} {seen : List GpuType}
    {g : GpuType} (hω : Leaving ω) (hnew : g ∉ seen) (hG : Gated quota live seen s)
    (hcreated : s.created = s.claims.flatMap TypeClaim.tasks)
    (h : (claimType live g).exec (S := sig) (amid cfg) ω s = (.ok u, s', ω')) :
    Gated quota live (seen ++ [g]) s' ∧
      s'.created = s'.claims.flatMap TypeClaim.tasks := by
  -- the quota is read
  let s₁ := (amid cfg (.getQuota g) (ω 0) s).2
  have hd₁ : Departs s.world s₁.world := (hω 0 s.world).trans (.of_same rfl rfl)
  have hG₁ : Gated quota live seen s₁ := hG.departs hd₁ s.created
  have hanswer : (amid cfg (.getQuota g) (ω 0) s).1 = quota g := by
    show ((ω 0).2 s.world).quota g = _
    rw [(hω 0 s.world).quota, hG.fixed]
  obtain ⟨_, _, _, hread, h₂⟩ := Prog.exec_bind_ok.1 h
  cases hread
  rw [hanswer] at h₂
  cases hq : quota g with
  | none =>
    rw [hq] at h₂
    cases h₂
    exact ⟨hG₁.pass hq, hcreated⟩
  | some q =>
    rw [hq] at h₂
    obtain ⟨claimed, s₂, ω₂, hclaim, h₃⟩ := Prog.exec_bind_ok.1 h₂
    obtain ⟨hω₂, c, w, hg, hfair, hbefore, hafter, hw, hs₂, htasks⟩ := claimQuery_ok hclaim
    subst hω₂ hs₂ hg
    -- the others have acted, the claim follows, and then its tasks are created
    have hG₂ := (hG₁.departs (hω 1 s₁.world) s.created).claim hnew hq hfair hbefore hafter hw
    obtain ⟨w', hd, rfl⟩ := createTasks_ok (fun k => hω (k + 2)) h₃
    refine ⟨hG₂.departs hd _, ?_⟩
    show s.created ++ _ = (s.claims ++ [c]).flatMap TypeClaim.tasks
    rw [hcreated, htasks, List.flatMap_append, List.flatMap_singleton]

theorem claimTypes_ok {quota : GpuType → Option Int} {live : GpuType → Nat}
    {seen gs : List GpuType} (hω : Leaving ω) (hnew : (seen ++ gs).Nodup)
    (hG : Gated quota live seen s) (hcreated : s.created = s.claims.flatMap TypeClaim.tasks)
    (h : (Prog.forEach gs (claimType live)).exec (S := sig) (amid cfg) ω s = (.ok u, s', ω')) :
    Gated quota live (seen ++ gs) s' ∧ s'.created = s'.claims.flatMap TypeClaim.tasks := by
  induction gs generalizing seen ω s with
  | nil =>
    cases h
    rw [List.append_nil]
    exact ⟨hG, hcreated⟩
  | cons g gs ih =>
    obtain ⟨_, s₁, ω₁, hg, h₁⟩ := Prog.exec_bind_ok.1 h
    have hmem : g ∉ seen := fun hm => (List.nodup_append.1 hnew).2.2 g hm g List.mem_cons_self rfl
    obtain ⟨hG₁, hcreated₁⟩ := claimType_ok hω hmem hG hcreated hg
    have heq : seen ++ g :: gs = seen ++ [g] ++ gs := by rw [List.append_assoc]; rfl
    rw [heq] at hnew ⊢
    have hω₁ := Prog.exec_rest (P := fun e : Env × (World → World) => ∀ v, Departs v (e.2 v)) hω hg
    exact ih hω₁ hnew hG₁ hcreated₁ h₁

theorem claimLoop_returns (hf : ∀ k, (ω k).1.fault = .none) :
    claimLoop.Returns (S := sig) (amid cfg) ω s := by
  have hquery : ∀ {q : Query} {ω : Nat → Env × (World → World)} {s : Watched},
      (∀ k, (ω k).1.fault = .none) → (∀ pick now db, ∃ a db', q.tx pick now db = .ok (a, db')) →
        (query q).Returns (S := sig) (amid cfg) ω s := by
    intro q ω s hf hq
    obtain ⟨a, db', ha⟩ := hq (ω 0).1.pick (((ω 0).2 s.world).clock + (ω 0).1.elapsed)
      ((ω 0).2 s.world).db
    refine Prog.returns_of_ok ((congrArg Prod.fst (Prog.exec_ofExcept _ _ _)).trans
      (show (q.run (ω 0).1 _ _).1 = .ok a from ?_))
    simp only [Query.run, Env.guard, hf, ha]
  refine Prog.returns_bind (hquery hf fun _ _ _ => ⟨_, _, rfl⟩) fun live s₁ ω₁ h₁ => ?_
  refine Prog.returns_forEach (P := fun e => e.1.fault = .none) (fun g ω s hω => ?_)
    (Prog.exec_rest (P := fun e => e.1.fault = .none) hf h₁)
  have hread : (Prog.emit (S := sig) (X := Exc) (.getQuota g)).exec (amid cfg) ω s =
      (.ok _, _, _) := rfl
  refine Prog.returns_bind ⟨_, _, _, hread⟩ fun quota s₂ ω₂ h₂ => ?_
  have hω₂ := Prog.exec_rest (P := fun e : Env × (World → World) => e.1.fault = .none) hω h₂
  cases quota with
  | none => exact ⟨(), _, _, rfl⟩
  | some q =>
    have hclaim : ∀ pick now db, ∃ a db',
        (Query.claimQueued g (q - live g)).tx pick now db = .ok (a, db') := by
      intro pick now db
      simp only [Query.tx, claimQueued]
      split <;> exact ⟨_, _, rfl⟩
    refine Prog.returns_bind (hquery hω₂ hclaim) fun claimed s₃ ω₃ h₃ => ?_
    exact Prog.returns_forEach (P := fun _ => True) (fun _ _ _ _ => ⟨(), _, _, rfl⟩)
      fun _ => trivial

end

/-- The capacity gate. While the others only take runs out of provisioning and running, the loop
makes one claim for each type with a quota, which takes as many runs as the quota has room for
beside those counted, or all there are, and writes to these alone; each run taken gets one task; and
no type comes to have more live runs than were counted, or than its quota. -/
theorem claimLoop_gate (cfg : Config) (w : World) {ω : Nat → Env × (World → World)}
    (hω : Leaving ω) :
    ((∀ k, (ω k).1.fault = .none) →
      claimLoop.Returns (S := sig) (amid cfg) ω { world := w }) ∧
    ∀ s' ω' u, claimLoop.exec (S := sig) (amid cfg) ω { world := w } = (.ok u, s', ω') →
      s'.live = liveCount ((ω 0).2 w).db ∧
      s'.claims.map TypeClaim.gpuType = GpuType.all.filter (fun g => (w.quota g).isSome) ∧
      (∀ c ∈ s'.claims, ∀ q, w.quota c.gpuType = some q → c.Fair (q - s'.live c.gpuType)) ∧
      s'.created = s'.claims.flatMap TypeClaim.tasks ∧ (s'.claims.flatMap TypeClaim.taken).Nodup ∧
      ∀ g, (liveCount s'.world.db g : Int) ≤ max (s'.live g : Int) ((w.quota g).getD 0) := by
  refine ⟨claimLoop_returns, fun s' ω' u h => ?_⟩
  obtain ⟨live, s₁, ω₁, hcount, hloop⟩ := Prog.exec_bind_ok.1 h
  obtain ⟨ha, hs⟩ := Prod.mk.inj ((Prog.exec_ofExcept _ _ _).symm.trans hcount)
  obtain ⟨rfl, rfl⟩ := Prod.mk.inj hs
  have htx := Query.run_ok ha
  obtain ⟨rfl, hdb⟩ := Prod.mk.inj (Except.ok.inj htx)
  have hlive : ∀ g, liveCount (Query.countLiveByType.run (ω 0).1
      (((ω 0).2 w).clock + (ω 0).1.elapsed) ((ω 0).2 w).db).2 g ≤ liveCount ((ω 0).2 w).db g :=
    fun g => le_of_eq (congrArg (liveCount · g) hdb.symm)
  have hG : Gated w.quota (liveCount ((ω 0).2 w).db) []
      (amid cfg (.db .countLiveByType) (ω 0) { world := w }).2 :=
    ⟨(hω 0 w).quota, rfl, rfl, fun c hc => absurd hc List.not_mem_nil,
      fun c hc => absurd hc List.not_mem_nil, List.nodup_nil, fun g _ => hlive g,
      fun g => le_max_of_le_left (by exact_mod_cast hlive g)⟩
  obtain ⟨hG', hcreated⟩ := claimTypes_ok (fun k => hω (k + 1)) (by decide) hG rfl hloop
  have hcounted := hG'.counted
  exact ⟨hcounted, hG'.types, hcounted ▸ hG'.fair, hcreated, hG'.nodup, hcounted ▸ hG'.after⟩

namespace Sample

/-- A quota of two, a run on a machine and two in the queue. -/
def queue : World :=
  { world with
    quota := fun g => if g = .L40S then some 2 else none
    db := { Db.empty with
      runs := ((Db.empty.runs.add { run with id := 9, status := .running }
        (by simp [Db.empty, Table.empty])).put { run with status := .queued }).put
          { run with id := 8, status := .queued } } }

def departed (run : Run) : Run := { run with status := .failed }

/-- Run 9 fails. -/
def leave (w : World) : World :=
  { w with db := w.db.modifyRuns (·.id = 9) departed fun _ => rfl }

theorem get_leave (w : World) (r : RunId) : (leave w).db.runs.get r =
    (w.db.runs.get r).map fun run => if decide (run.id = 9) then departed run else run :=
  Db.get_modifyRuns w.db departed (fun _ => rfl) _ r

/-- It does so after it was counted and before the claim. -/
def leaves (k : Nat) : Env × (World → World) := ({}, if k = 2 then leave else id)

theorem leaving_leaves : Leaving leaves := by
  intro k w
  by_cases hk : k = 2
  · rw [leaves, if_pos hk]
    refine ⟨rfl, fun r run hr => ?_, fun r run' hr hl => ?_⟩
    · refine ⟨_, by rw [get_leave, hr, Option.map_some], ?_⟩
      split <;> rfl
    · rw [get_leave] at hr
      obtain ⟨run, hrun, rfl⟩ := Option.map_eq_some_iff.1 hr
      refine ⟨run, hrun, ?_⟩
      split at hl
      · cases hl
      · exact hl
  · rw [leaves, if_neg hk]
    exact .of_same rfl rfl

def gate : Except Exc Unit × Watched × (Nat → Env × (World → World)) :=
  claimLoop.exec (S := sig) (amid config) leaves { world := queue }

end Sample

open Sample in
theorem claimLoop_gate_of_queue : gate.2.1.world.db.status 9 = some .failed ∧
    gate.2.1.live .L40S = 1 ∧ gate.2.1.created = [.handleQueuedRun 7 .L40S] ∧
    (gate.2.1.claims.flatMap TypeClaim.taken).Nodup ∧
    (liveCount gate.2.1.world.db .L40S : Int) ≤ max (gate.2.1.live .L40S : Int) 2 := by
  obtain ⟨-, -, -, -, hnodup, hlive⟩ :=
    (claimLoop_gate config queue leaving_leaves).2 gate.2.1 gate.2.2 () rfl
  exact ⟨by decide, by decide, by decide, hnodup, hlive .L40S⟩

end GrillPlatform
