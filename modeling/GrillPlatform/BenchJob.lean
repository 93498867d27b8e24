import GrillPlatform.RowStates
import GrillPlatform.Published
import GrillPlatform.Shell.Command

/-! The job `bench` of `bench.yml`: it submits, polls `/bench/status` until no run is active, and
fails when a run has failed. A job that ends green says that every run it waited for is done. -/

namespace GrillPlatform
open Coroutine Shell RunRepository
variable {cfg : Config}

namespace RunRepository

def countByStatus (db : Db) (status : RunStatus) : Nat :=
  db.runs.rows.countP fun run => run.status = status

end RunRepository

/-- The answer of `GET /bench/status`. -/
structure BenchStatus where
  active : Nat
  counts : RunStatus → Nat

def BenchService.benchStatus (db : Db) : BenchStatus :=
  let counts := countByStatus db
  { active := (activeRunStatuses.map counts).sum, counts }

theorem countByStatus_eq_zero {db : Db} {status : RunStatus} :
    countByStatus db status = 0 ↔ ∀ r, db.status r ≠ some status := by
  unfold countByStatus
  rw [List.countP_eq_zero]
  constructor
  · intro h r hr
    obtain ⟨run, hg, rfl⟩ := Db.get_of_status hr
    exact h run (Table.get_eq_some.1 hg).1 (decide_eq_true rfl)
  · intro h run hmem hs
    have hg : db.runs.get run.id = some run := Table.get_eq_some.2 ⟨hmem, rfl⟩
    exact h run.id ((Db.status_of_get hg).trans (congrArg some (of_decide_eq_true hs)))

theorem active_eq_zero {db : Db} : (BenchService.benchStatus db).active = 0 ↔
    ∀ r s, db.status r = some s → s.final := by
  have hzero : (BenchService.benchStatus db).active = 0 ↔
      ∀ status ∈ activeRunStatuses, countByStatus db status = 0 := by
    simp [BenchService.benchStatus, activeRunStatuses]
  rw [hzero]
  constructor
  · intro h r s hr
    have hcount := fun hmem => countByStatus_eq_zero.1 (h s hmem) r hr
    cases s with
    | queued | provisioning | running => exact (hcount (by decide)).elim
    | done => exact .inl rfl
    | failed => exact .inr rfl
  · intro h status hmem
    refine countByStatus_eq_zero.2 fun r hr => ?_
    rcases h r status hr with rfl | rfl <;> exact absurd hmem (by decide)

namespace BenchJob

structure Outside where
  force : Bool
  model : String
  /-- The answers to its requests for the status; none where `curl -sf` gets no answer. -/
  answer : Nat → Option BenchStatus
  /-- The statuses of its other commands. -/
  status : Nat → Nat

structure State where
  asked : Nat := 0
  ran : Nat := 0
  params : String := ""
  posted : List String := []
  failed : Option Nat := none

section
variable (out : Outside)

def command (text : String) (f : State → State := id) : Cmd State :=
  .simple ⟨0, text⟩ fun s => (out.status s.ran, f { s with ran := s.ran + 1 })

/-- What `curl -sf …/bench/status | jq` prints: nothing where there is no answer. The status of the
pipeline is that of `jq`. -/
def jq (field : BenchStatus → Nat) (s : State) : Option Nat := (out.answer s.asked).map field

def submit : Cmd State := block [
  assign fun s => { s with params := s!"force={out.force}" },
  .cond (test fun _ => out.model ≠ "")
    (assign fun s => { s with params := s.params ++ s!"&model={out.model}" }) skip,
  command out "curl | tee /tmp/bench_submit.json" fun s =>
    { s with posted := s.posted ++ [s.params] },
  command out "echo"]

def waitForRuns : Cmd State := block [
  .untilDo
    (.simple ⟨0, "[["⟩ fun s =>
      (if jq out BenchStatus.active s = some 0 then 0 else 1, { s with asked := s.asked + 1 }))
    (block [
      command out "echo" fun s => { s with asked := s.asked + 1 },
      command out "sleep 30"]),
  command out "echo"]

/-- An empty text counts as zero in `[[ "$FAILED" -gt 0 ]]`. -/
def failIfFailed : Cmd State := block [
  command out "FAILED=$(curl | jq)" fun s =>
    { s with asked := s.asked + 1, failed := jq out (fun st => st.counts .failed) s },
  .cond (test fun s => 0 < s.failed.getD 0) (block [command out "echo", .exit 1]) skip]

def job (fuel : Nat) : Option (Nat × State) :=
  runSteps fuel [submit out, waitForRuns out, failIfFailed out] {}

end

def Red (o : Outcome) (_ : State) : Prop := exitStatus o ≠ 0

section
variable {out : Outside} {fuel : Nat} {P Q : State → Prop}

theorem command_triple {text : String} {f : State → State}
    (hP : ∀ s, P s → Q (f { s with ran := s.ran + 1 })) :
    Triple True fuel {} P (command out text f) (Ok Q) Red :=
  Triple.simple fun s hs => by
    split
    · rename_i h
      rcases h with h | h
      · exact ⟨h, hP s hs⟩
      · cases h
    · rename_i h
      exact fun hzero => h (.inl hzero)

/-- The last request, `i`, was told that no run is active. -/
def Waited (out : Outside) (i : Nat) (s : State) : Prop :=
  s.asked = i + 1 ∧ ∃ st, out.answer i = some st ∧ st.active = 0

/-- One request came after that, and if it was answered, it was told of no failed run. -/
def Passed (out : Outside) (s : State) : Prop :=
  ∃ i, s.asked = i + 2 ∧ (∃ st, out.answer i = some st ∧ st.active = 0) ∧
    ∀ st, out.answer (i + 1) = some st → st.counts .failed = 0

theorem submit_triple : Triple True fuel {} (fun _ => True) (submit out)
    (Ok fun _ => True) Red := by
  have hparams : Triple True fuel {} (fun _ => True) (.cond (test fun _ => out.model ≠ "")
      (assign fun s => { s with params := s.params ++ s!"&model={out.model}" }) skip)
      (Ok fun _ => True) Red :=
    Triple.branch (Triple.assign fun _ _ => trivial) (Triple.skip fun _ _ => trivial)
  exact Triple.next (Triple.assign fun _ h => h) (Triple.next hparams
    (Triple.next (command_triple fun _ h => h) (command_triple fun _ h => h)))

theorem waitForRuns_triple : Triple True fuel {} (fun _ => True) (waitForRuns out)
    (Ok fun s => ∃ i, Waited out i s) Red := by
  have hround : Triple True fuel {} (fun _ => True)
      (block [command out "echo" fun s => { s with asked := s.asked + 1 },
        command out "sleep 30"]) (Ok fun _ => True) Red :=
    Triple.next (command_triple fun _ h => h) (command_triple fun _ h => h)
  have hask : Triple True fuel (Context.unchecked {}) (fun _ => True)
      (.simple ⟨0, "[["⟩ fun s => (if jq out BenchStatus.active s = some 0 then 0 else 1,
        { s with asked := s.asked + 1 }))
      (fun n s => if n = 0 then Ok (fun s => ∃ i, Waited out i s) 0 s else True) Red :=
    Triple.simple fun s _ => by
      rw [if_pos (.inr rfl)]
      by_cases h : jq out BenchStatus.active s = some 0
      · obtain ⟨st, hst, hactive⟩ := Option.map_eq_some_iff.1 h
        rw [if_pos h]
        exact ⟨rfl, s.asked, rfl, st, hst, hactive⟩
      · rw [if_neg h]
        trivial
  exact Triple.next (Triple.rounds hask (hround.post fun _ _ h => h.2)) (command_triple fun _ h => h)

theorem failIfFailed_triple : Triple True fuel {} (fun s => ∃ i, Waited out i s)
    (failIfFailed out) (Ok (Passed out)) Red := by
  let Told : State → Prop := fun s => ∃ i, s.asked = i + 2 ∧
    (∃ st, out.answer i = some st ∧ st.active = 0) ∧
    s.failed = (out.answer (i + 1)).map fun st => st.counts .failed
  have hask : Triple True fuel {} (fun s => ∃ i, Waited out i s)
      (command out "FAILED=$(curl | jq)" fun s =>
        { s with asked := s.asked + 1, failed := jq out (fun st => st.counts .failed) s })
      (Ok Told) Red :=
    command_triple fun s ⟨i, hi, hactive⟩ =>
      ⟨i, congrArg (· + 1) hi, hactive, by rw [← hi]; rfl⟩
  have hfail : Triple True fuel {} (fun s => Told s ∧ decide (0 < s.failed.getD 0) = true)
      (block [command out "echo", .exit 1]) (Ok (Passed out)) Red :=
    Triple.next (R := fun _ => True) (command_triple fun _ _ => trivial) (Triple.exit fun _ _ => nofun)
  refine Triple.next hask (Triple.branch hfail (Triple.skip fun s h => ?_))
  obtain ⟨⟨i, hasked, hactive, hfailed⟩, hno⟩ := h
  refine ⟨i, hasked, hactive, fun st hst => ?_⟩
  rw [hst] at hfailed
  rw [hfailed] at hno
  simpa using hno

theorem passed_of_job {s : State} (h : job out fuel = some (0, s)) : Passed out s := by
  obtain ⟨s₁, -, h₁⟩ := runSteps_cons (submit_triple.post fun _ _ h _ => h.2) trivial h
  obtain ⟨s₂, hwaited, h₂⟩ := runSteps_cons (waitForRuns_triple.post fun _ _ h _ => h.2) trivial h₁
  obtain ⟨s₃, hpassed, h₃⟩ := runSteps_cons (failIfFailed_triple.post fun _ _ h _ => h.2) hwaited h₂
  cases h₃
  exact hpassed

end

/-! ## Green means done -/

/-- The orchestrator as the job asks it: request `k` is answered, if it is, from the database as it
is then. -/
structure Asked (out : Outside) (p₀ : System cfg) (seen : Nat → System cfg) : Prop where
  start : Pool.Reach FinalKept p₀ (seen 0)
  next : ∀ k, Pool.Reach FinalKept (seen k) (seen (k + 1))
  answer : ∀ k st, out.answer k = some st → st = BenchService.benchStatus (seen k).world.db

theorem Asked.reach {out : Outside} {p₀ : System cfg} {seen : Nat → System cfg}
    (h : Asked out p₀ seen) {i j : Nat} (hij : i ≤ j) : Pool.Reach FinalKept (seen i) (seen j) := by
  induction j, hij using Nat.le_induction with
  | base => exact .init
  | succ j _ ih => exact ih.trans (h.next j)

/-- A green job is honest, if its last request for the status got an answer: then every run there was
when the request before it ended the wait is done and has its result. -/
theorem green_is_honest {out : Outside} {fuel : Nat} {s : State} {w : World}
    {seen : Nat → System cfg} (hjob : job out fuel = some (0, s)) (hw : w.db.Sound w.clock)
    (hasked : Asked out (System.start cfg w) seen) :
    ∃ i, s.asked = i + 2 ∧ (∃ st, out.answer i = some st ∧ st.active = 0) ∧
      (out.answer (i + 1) = none ∨ ∀ r run, (seen i).world.db.runs.get r = some run →
        ∃ run' result, (seen (i + 1)).world.db.runs.get r = some run' ∧ run'.status = .done ∧
          (seen (i + 1)).world.db.results.get r = some result) := by
  obtain ⟨i, hlast, ⟨st, hst, hactive⟩, hnone⟩ := passed_of_job hjob
  refine ⟨i, hlast, ⟨st, hst, hactive⟩, ?_⟩
  cases hanswer : out.answer (i + 1) with
  | none => exact .inl rfl
  | some st' =>
    right
    intro r run hg
    have hstatus := Db.status_of_get hg
    rw [hasked.answer i st hst] at hactive
    have hfinal := active_eq_zero.1 hactive r run.status hstatus
    have hkept := final_kept (hasked.reach (Nat.le_succ i)) hfinal hstatus
    have hzero := hnone st' hanswer
    rw [hasked.answer (i + 1) st' hanswer] at hzero
    have hdone : run.status = .done := by
      rcases hfinal with h | h
      · exact h
      · exact absurd (h ▸ hkept) (countByStatus_eq_zero.1 hzero r)
    obtain ⟨run', hg', hs'⟩ := Db.get_of_status hkept
    have hsound := sound_of_reach hw (hasked.start.trans (hasked.reach (Nat.zero_le (i + 1))))
    have hcoherent := (hsound.runs r run' hg').done (hs'.trans hdone)
    obtain ⟨result, hresult⟩ := Option.isSome_iff_exists.1 hcoherent.2
    exact ⟨run', result, hg', hs'.trans hdone, hresult⟩

/-- One run, and it is done; the first request gets lost. -/
def oneDone : Outside where
  force := false
  model := ""
  answer k := if k = 0 then none else some ⟨0, fun s => if s = .done then 1 else 0⟩
  status _ := 0

theorem green_is_honest_of_completed :
    let p := Sample.start.play (Sample.completed 7)
    ∃ run result, p.world.db.runs.get 7 = some run ∧ run.status = .done ∧
      p.world.db.results.get 7 = some result := by
  intro p
  have hreach : Pool.Reach FinalKept Sample.start p :=
    Pool.reach_play_of_obeys Sample.start (Sample.completed 7) (by decide) (by decide)
  have hcounts : ∀ s, (if s = RunStatus.done then 1 else 0) = countByStatus p.world.db s := by
    intro s
    cases s <;> decide
  have hstatus : (⟨0, fun s => if s = .done then 1 else 0⟩ : BenchStatus) =
      BenchService.benchStatus p.world.db := by
    unfold BenchService.benchStatus
    rw [← funext hcounts]
    rfl
  have hasked : Asked oneDone Sample.start fun _ => p := by
    refine ⟨hreach, fun _ => .init, fun k st h => ?_⟩
    by_cases hk : k = 0
    · cases (if_pos hk).symm.trans h
    · exact (Option.some.inj ((if_neg hk).symm.trans h)).symm.trans hstatus
  have hrow : ∃ run, p.world.db.runs.get 7 = some run := Option.isSome_iff_exists.1 (by decide)
  obtain ⟨run, hrun⟩ := hrow
  have hjob : ∃ s, job oneDone 2 = some (0, s) ∧ s.asked = 4 := ⟨_, rfl, rfl⟩
  obtain ⟨s, hjob, hfour⟩ := hjob
  obtain ⟨i, hlast, -, hdone⟩ := green_is_honest hjob (sound_empty 0) hasked
  obtain rfl : i = 2 := Nat.add_right_cancel (hlast.symm.trans hfour)
  rcases hdone with hnone | hdone
  · cases hnone
  · exact hdone 7 run hrun

end BenchJob
end GrillPlatform
