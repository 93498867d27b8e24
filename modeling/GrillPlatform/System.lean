import GrillPlatform.Services

/-! The orchestrator process: its tasks, interleaved at every await, over one world. -/

namespace GrillPlatform
open Coroutine

def TaskName.body (cfg : Config) : TaskName → Async Unit
  | .pollingLoop => GrillPlatform.pollingLoop
  | .pollTick => GrillPlatform.pollTick cfg
  | .handleQueuedRun r g => GrillPlatform.handleQueuedRun cfg r g
  | .releaseNode r => GrillPlatform.releaseNode r
  | .recoverOrphanedProvisioningRun r => GrillPlatform.recoverOrphanedProvisioningRun cfg r
  | .abortStuckRunning r lastPhase => GrillPlatform.abortStuckRunning cfg r lastPhase
  | .abortStuckProvisioning r => GrillPlatform.abortStuckProvisioning r
  | .request req => req.body cfg

def Op.created : Op → Option TaskName
  | .createTask n => some n
  | _ => none

abbrev orchestrator (cfg : Config) : Machine sig Exc where
  World := World
  Env := Env
  Name := TaskName
  body := TaskName.body cfg
  handle i _ op e w :=
    let r := World.call cfg i e { w with clock := w.clock + e.elapsed } op
    (r.1, r.2, op.created)
  external
    | .request req => req.valid
    | _ => false
  boot := .pollingLoop
  reboot := World.reboot cfg

abbrev System (cfg : Config) := Pool (orchestrator cfg)
abbrev Step (cfg : Config) := Label (orchestrator cfg)

namespace System
variable {cfg : Config}

/-- The process starts on whatever it finds. -/
def start (cfg : Config) (w : World) : System cfg := Pool.boot { w with busy := [] }

/-- Every execution: any schedule, any answers of the environment, any requests, any crashes. -/
def Reachable (p₀ p : System cfg) : Prop := Pool.Reach (fun _ _ => True) p₀ p

def taskNames (p : System cfg) : List TaskName := p.tasks.map Task.name

def calls (p : System cfg) (l : Step cfg) : Option (Op × Env) :=
  match l with
  | .run i e =>
    match p.tasks[i]? with
    | some ⟨_, .call op _⟩ => some (op, e)
    | _ => none
  | _ => none

def queries (p : System cfg) (l : Step cfg) : Option (Query × Env) :=
  match p.calls l with
  | some (.db c, e) => some (c, e)
  | _ => none

section
variable {p : System cfg} {i : Nat} {e : (orchestrator cfg).Env} {n : (orchestrator cfg).Name}
  {op : sig.Op} {next : sig.Resp op → Prog sig Exc Unit}

theorem calls_run (h : p.tasks[i]? = some ⟨n, .call op next⟩) :
    p.calls (.run i e) = some (op, e) := by
  simp [calls, h]

theorem queries_run (h : p.tasks[i]? = some ⟨n, .call op next⟩) :
    p.queries (.run i e) = match (op : Op) with | .db c => some (c, e) | _ => none := by
  rw [queries, calls_run h]
  cases op <;> rfl

variable (p i e n op next) in
theorem after_db : (p.after i n op next e).world.db = p.world.db ∨
    ∃ (c : Query) (a : c.Resp), (op : Op) = .db c ∧ e.fault ≠ .before ∧
      c.tx e.pick (p.world.clock + e.elapsed) p.world.db =
        .ok (a, (p.after i n op next e).world.db) := by
  cases op with
  | db c =>
    by_cases hf : e.fault = .before
    · exact .inl (Query.run_before hf _ _)
    rcases Query.run_db c e (p.world.clock + e.elapsed) p.world.db with h | ⟨a, h⟩
    · exact .inl h
    · exact .inr ⟨c, a, rfl, hf, h⟩
  | _ => exact .inl rfl

end

theorem call_of_queries {p : System cfg} {l : Step cfg} {c : Query} {e : Env}
    (h : p.queries l = some (c, e)) : ∃ i n next, l = .run i e ∧
      p.tasks[i]? = some ⟨n, .call (.db c) next⟩ := by
  unfold queries calls at h
  split at h
  · rename_i c' e' hq
    cases h
    split at hq
    · rename_i i e''
      split at hq
      · rename_i n op next ht
        cases hq
        exact ⟨i, n, next, rfl, ht⟩
      · cases hq
    · cases hq
  · cases h

theorem step_query {p q : System cfg} {l : Step cfg} {c : Query} {e : Env}
    (h : p.step l = some q) (hc : p.queries l = some (c, e)) :
    q.world.db = (c.run e (p.world.clock + e.elapsed) p.world.db).2 := by
  rcases Pool.step_cases h with
    ⟨i, e', n, op, next, rfl, ht, rfl⟩ | ⟨n, rfl, -, rfl⟩ | ⟨e', rfl, rfl⟩
  · rw [queries_run ht] at hc
    cases op <;> cases hc
    rfl
  · cases hc
  · cases hc

theorem step_db {p q : System cfg} {l : Step cfg} (h : p.step l = some q) :
    q.world.db = p.world.db ∨ ∃ (c : Query) (e : Env) (t : Time) (a : c.Resp),
      p.queries l = some (c, e) ∧ c.tx e.pick t p.world.db = .ok (a, q.world.db) := by
  rcases Pool.step_cases h with ⟨i, e, n, op, next, rfl, ht, rfl⟩ | ⟨n, rfl, -, rfl⟩ | ⟨e, rfl, rfl⟩
  · rcases after_db p i e n op next with h | ⟨c, a, rfl, -, h⟩
    · exact .inl h
    · exact .inr ⟨c, e, _, a, queries_run ht, h⟩
  · exact .inl rfl
  · exact .inl rfl

/-- The repository call of a step, if it takes effect, satisfies `P`. -/
def Meets (P : Db → Query → Prop) (p : System cfg) (l : Step cfg) : Prop :=
  ∀ c ∈ p.queries l, c.2.fault = .before ∨ P p.world.db c.1

instance Meets.decidable (P : Db → Query → Prop) [∀ db c, Decidable (P db c)] (p : System cfg)
    (l : Step cfg) :
    Decidable (Meets P p l) := inferInstanceAs (Decidable (∀ c ∈ p.queries l, _))

/-- A relation between the databases around a step holds exactly when the call meets `P`, if it
does so for the transactions. -/
theorem rel_iff_meets {R : Db → Db → Prop} {P : Db → Query → Prop} {p q : System cfg}
    {l : Step cfg} (hs : p.step l = some q) (hrefl : R p.world.db p.world.db)
    (hP : ∀ c e, p.queries l = some (c, e) → ∀ t,
      P p.world.db c ↔ ∀ a db', c.tx e.pick t p.world.db = .ok (a, db') → R p.world.db db') :
    R p.world.db q.world.db ↔ Meets P p l := by
  constructor
  · rintro hR ⟨c, e⟩ hc
    by_cases he : e.fault = .before
    · exact .inl he
    · refine .inr ((hP c e hc (p.world.clock + e.elapsed)).2 fun a db' ha => ?_)
      rwa [← Query.run_commits he ha, ← step_query hs hc]
  · intro hm
    rcases step_db hs with he | ⟨c, e, t, a, hc, ha⟩
    · rwa [he]
    · rcases hm _ hc with he | hP'
      · rwa [step_query hs hc, Query.run_before he]
      · exact (hP c e hc t).1 hP' a _ ha

end System

/-! ## A small deployment -/

namespace Sample

/-- A package that has been sent no records: it takes none of the lines below for one. -/
def llmGrill : LlmGrill where
  RequestMetrics := Int
  modelValidateJson _ := .error (.valueError "ValidationError")
  concurrentUsersLevel := id
  estimateTotalDuration _ := .ok 0
  aggregate rs _ := .ok ⟨"load", rs.length, rs.length, 0, 0, 0, 0, 0, 0, 0, 0, 0, 0, 0, 0⟩

def config : Config := { resolve := id, readFile := fun _ => some "load", llmGrill }

def world : World := { db := .empty, s3 := fun _ => none, quota := World.quotaOf config }

def start : System config := System.start config world

/-- The run of the schedules once it is running. -/
def run : Run :=
  { id := 7, status := .running, model := "m", modelSizeB := 8, engine := .vllm,
    gpuTypeRequired := .L40S, scenarioPath := "s.yaml", provisioningStartedAt := some 0,
    createdAt := 0, startedAt := some 0 }

def steps (i n : Nat) : List (Step config) := List.replicate n (.run i {})

/-- The process boots (task 0 starts the ticks, task 1), request 2 creates run `r`, and the tick
claims it. Task 3 is its `handle_queued_run`. -/
def claimed (r : RunId) : List (Step config) :=
  steps 0 5 ++ .arrive (.request (.createRun ⟨"m", 8, .vllm, "s.yaml", none⟩)) ::
    .run 2 { uuid := r } :: steps 2 2 ++ steps 1 4

/-- Up to the end of `apply`: the server exists. -/
def applied (r : RunId) : List (Step config) := claimed r ++ steps 3 8

/-- The provisioning task is through, and the rest of the tick as well. Task 4 is the next tick. -/
def running (r : RunId) : List (Step config) :=
  applied r ++ .run 3 { output := some (.named "gpu-1", "10.0.0.1") } :: steps 3 4 ++ steps 1 8

/-- `apply` finds no stock, the cleanup goes through, and the next tick, task 4, claims the run
again. -/
def requeued (r : RunId) : List (Step config) :=
  claimed r ++ steps 3 7 ++ .run 3 { tfOk := false, stderr := "out of stock" } :: steps 3 9 ++
    steps 1 8 ++ steps 4 3

/-- A POST of an empty results file has read the run and made its two uploads (task 5); then the
tick, an hour on, reaps the run and creates the abort task 6. -/
def reaped (r : RunId) : List (Step config) :=
  running r ++ .arrive (.request (.complete r "")) :: steps 5 3 ++
    .run 4 { elapsed := 61 * 60 * 1000000 } :: steps 4 9

/-- The same POST goes through. Task 6 releases the node. -/
def completed (r : RunId) : List (Step config) :=
  running r ++ .arrive (.request (.complete r "")) :: steps 5 8

/-- The results of run 7 are POSTed twice, and both requests (tasks 5 and 6) have found it running;
the first has completed it. -/
def postedTwice : List (Step config) :=
  running 7 ++ .arrive (.request (.complete 7 "")) :: .arrive (.request (.complete 7 "")) ::
    steps 5 1 ++ steps 6 1 ++ steps 5 7

/-- Two runs of a pair are running, on different GPUs. -/
def bothRunning : List (Step config) :=
  running 7 ++ .arrive (.request (.createRun ⟨"m", 80, .vllm, "s.yaml", none⟩)) ::
    .run 5 { uuid := 8 } :: steps 5 2 ++ steps 4 6 ++ steps 6 8 ++
    .run 6 { output := some (.named "gpu-2", "10.0.0.2") } :: steps 6 4

/-- They are completed one after the other. -/
def bothCompleted : List (Step config) :=
  bothRunning ++ .arrive (.request (.complete 7 "")) :: steps 7 8 ++
    .arrive (.request (.complete 8 "")) :: steps 9 8

end Sample
end GrillPlatform
