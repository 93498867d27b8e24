import GrillPlatform.Footprint
import GrillPlatform.RunRows

/-! Bounded retries. A run is claimed at most once more than it was sent back, and it is sent back
only while attempts are left. -/

namespace GrillPlatform
open Coroutine RunRepository
variable {cfg : Config}

def Claimed (r : RunId) (p q : System cfg) : Prop :=
  p.world.db.status r = some .queued ∧ q.world.db.status r = some .provisioning

instance Claimed.decidable (r : RunId) (p q : System cfg) : Decidable (Claimed r p q) :=
  inferInstanceAs (Decidable (_ ∧ _))

def claims (r : RunId) (p : System cfg) (ls : List (Step cfg)) : Nat := p.count (Claimed r) ls

def waiting (run : Run) : Nat := if run.status = .queued then 1 else 0

def taken (run run' : Run) : Nat :=
  if run.status = .queued ∧ run'.status = .provisioning then 1 else 0

/-- The claims made, and the one a queued run still waits for, against the attempts spent. -/
structure Ledger (m : Int) (n : Nat) (run : Run) : Prop where
  spent : n + waiting run ≤ run.provisionAttempts + 1
  bounded : (n + waiting run : Nat) ≤ max 1 m

theorem waiting_le (run : Run) : waiting run ≤ 1 := by
  unfold waiting
  split <;> omega

theorem ledger_zero (m : Int) (run : Run) : Ledger m 0 run := by
  have := waiting_le run
  constructor <;> omega

theorem RowWrite.attempts_le {now : Time} {q : Query} {run run' : Run}
    (h : RowWrite now q run run') : run.provisionAttempts ≤ run'.provisionAttempts := by
  cases h <;> simp

/-- Only a requeue lets a run wait again, and it spends an attempt below the limit. -/
theorem RowWrite.waiting {now : Time} {q : Query} {run run' : Run} (h : RowWrite now q run run') :
    taken run run' + waiting run' ≤ waiting run ∨
    ∃ m, q = .requeueForRetry run.id m ∧ ¬ m ≤ run.provisionAttempts + 1 ∧
      taken run run' = 0 ∧ run'.provisionAttempts = run.provisionAttempts + 1 := by
  cases h with
  | claim hq => left; simp [taken, GrillPlatform.waiting, hq]
  | requeue hm => exact .inr ⟨_, rfl, hm, by simp [taken], rfl⟩
  | _ => left; cases hs : run.status <;> simp_all [taken, GrillPlatform.waiting]

theorem RowWrite.ledger {now : Time} {q : Query} {run run' : Run} {m : Int} {n : Nat}
    (h : RowWrite now q run run') (hm : ∀ r m', q = .requeueForRetry r m' → m' = m)
    (hl : Ledger m n run) : Ledger m (n + taken run run') run' := by
  obtain ⟨hs, hb⟩ := hl
  have ha := h.attempts_le
  rcases h.waiting with hw | ⟨m', rfl, hlt, ht, he⟩
  · constructor <;> omega
  · obtain rfl := hm _ _ rfl
    have := waiting_le run'
    constructor <;> omega

/-- A run that is not there yet has not been claimed. -/
def Accounted (m : Int) (r : RunId) (db : Db) (n : Nat) : Prop :=
  match db.runs.get r with
  | none => n = 0
  | some run => Ledger m n run

theorem accounted_zero (m : Int) (r : RunId) (db : Db) : Accounted m r db 0 := by
  unfold Accounted
  split
  · rfl
  · exact ledger_zero m _

theorem accounted_step {w : World} {p q : System cfg} {l : Step cfg} {r : RunId} {n : Nat}
    (hp : Pool.Reach (fun _ _ => True) (System.start cfg w) p)
    (h : Accounted cfg.provisionMaxAttempts r p.world.db n) (hs : p.step l = some q) :
    Accounted cfg.provisionMaxAttempts r q.world.db (n + if Claimed r p q then 1 else 0) := by
  have hkeep : q.world.db.runs.get r = p.world.db.runs.get r →
      Accounted cfg.provisionMaxAttempts r q.world.db (n + if Claimed r p q then 1 else 0) := by
    intro he
    rw [if_neg fun hc => by
      rw [Claimed, Db.status, Db.status, he] at hc; simp [hc.1] at hc]
    unfold Accounted
    rw [he]
    exact h
  rcases System.step_db hs with he | ⟨c, e, t, a, hc, ha⟩
  · exact hkeep (by rw [he])
  have hreg := System.regular_of_queries hp hc
  rcases c.rowStep ha r with he | ⟨run, run', hx, hy, hw⟩ | ⟨run, -, -, hx, hy⟩
  · exact hkeep he
  · have hl := hw.ledger (m := cfg.provisionMaxAttempts) (n := n)
      (fun _ _ hq => by subst hq; exact hreg) (by rwa [Accounted, hx] at h)
    rw [Accounted, hy]
    simpa [Claimed, Db.status, hx, hy, taken] using hl
  · rw [Accounted, hx] at h
    subst h
    rw [if_neg fun hc => by simp [Claimed, Db.status, hx] at hc, Accounted, hy]
    exact ledger_zero _ run

theorem attempts_step {p q : System cfg} {l : Step cfg} {r : RunId} {run : Run}
    (hs : p.step l = some q) (hr : p.world.db.runs.get r = some run) :
    ∃ run' ∈ q.world.db.runs.get r, run.provisionAttempts ≤ run'.provisionAttempts := by
  rcases System.step_db hs with he | ⟨c, e, t, a, -, ha⟩
  · exact ⟨run, by rw [he]; exact hr, le_rfl⟩
  rcases c.rowStep ha r with he | ⟨x, y, hx, hy, hw⟩ | ⟨x, -, -, hx, -⟩
  · exact ⟨run, he.trans hr, le_rfl⟩
  · cases hx.symm.trans hr
    exact ⟨y, hy, hw.attempts_le⟩
  · cases hx.symm.trans hr

/-- Whatever the schedule, the answers and the crashes, a run is claimed at most
`max 1 provision_max_attempts` times and never more than once beyond its attempts, which no step
decreases. -/
theorem claims_bounded {w : World} {r : RunId} {ls : List (Step cfg)} {p : System cfg}
    (h : (System.start cfg w).exec ls = some p) :
    (claims r (System.start cfg w) ls : Int) ≤ max 1 cfg.provisionMaxAttempts ∧
    (∀ run ∈ p.world.db.runs.get r,
      claims r (System.start cfg w) ls ≤ run.provisionAttempts + 1) ∧
    ∀ l q, p.step l = some q → ∀ run ∈ p.world.db.runs.get r,
      ∃ run' ∈ q.world.db.runs.get r, run.provisionAttempts ≤ run'.provisionAttempts := by
  have ha : Accounted cfg.provisionMaxAttempts r p.world.db (claims r (System.start cfg w) ls) :=
    Pool.count_invariant (P := Claimed r)
      (I := fun p n => Accounted cfg.provisionMaxAttempts r p.world.db n) h
      (accounted_zero _ _ _) fun _ _ _ _ hp hI hs => accounted_step hp hI hs
  refine ⟨?_, fun run hr => ?_, fun l q hs run hr => attempts_step hs hr⟩
  · unfold Accounted at ha
    split at ha
    · omega
    · have := ha.bounded
      omega
  · rw [Accounted, show p.world.db.runs.get r = some run from hr] at ha
    have := ha.spent
    omega

theorem claims_of_requeued :
    claims 7 Sample.start (Sample.requeued 7) = 2 ∧
    (claims 7 Sample.start (Sample.requeued 7) : Int) ≤ max 1 30 :=
  ⟨by decide, (claims_bounded (r := 7) (Pool.exec_play Sample.start (Sample.requeued 7)
    (by decide))).1⟩

end GrillPlatform
