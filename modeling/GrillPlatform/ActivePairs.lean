import GrillPlatform.Undisturbed

/-! One active run for each (model, engine). The check of `submit` and its insertion are two
transactions; nothing else keeps the pairs apart. -/

namespace GrillPlatform
open Coroutine RunRepository
variable {cfg : Config} {w : World}

def Run.pair (run : Run) : String × Engine := (run.model, run.engine)

def Run.active (run : Run) : Bool := run.status ∈ activeRunStatuses

/-- No two active runs have the same model and engine. -/
def OnePerPair (db : Db) : Prop :=
  ∀ r r' x y, db.runs.get r = some x → db.runs.get r' = some y → x.active = true →
    y.active = true → x.pair = y.pair → r = r'

/-- No run of the pair is active. -/
def Vacant (db : Db) (k : String × Engine) : Prop :=
  ∀ r x, db.runs.get r = some x → x.active = true → x.pair ≠ k

theorem RowWrite.pair_eq {now : Time} {q : Query} {run run' : Run} (h : RowWrite now q run run') :
    run'.pair = run.pair := by
  cases h <;> rfl

/-- Whether a task may create a run: any, or one of a pair it has found free. -/
inductive Vacancy where
  | none
  | free (k : String × Engine)
  | any
  deriving DecidableEq

/-- `POST /runs` checks nothing. -/
def TaskName.vacancy : TaskName → Vacancy
  | .request (.createRun _) => .any
  | _ => .none

namespace Vacancy

def allows (γ : Vacancy) : Op → Prop
  | .db (.runCreate run) => γ = .any ∨ γ = .free run.pair
  | .createTask n => n.vacancy = .none
  | _ => True

def after (γ : Vacancy) : (op : Op) → op.Resp → Vacancy
  | .db (.hasActiveRun model engine), .ok false => .free (model, engine)
  | .db (.hasActiveRun ..), _ | .db (.runCreate _), _ => if γ = .any then .any else .none
  | _, _ => γ

end Vacancy

def vacating : Protocol sig Vacancy := ⟨Vacancy.allows, Vacancy.after⟩

def Unpaired : Op → Prop
  | .db (.hasActiveRun ..) | .db (.runCreate _) => False
  | .createTask n => n.vacancy = .none
  | _ => True

theorem unpaired_maintains {α : Type} {I : Vacancy → Prop} {p : Async α}
    (hp : p.Calls (S := sig) Unpaired) : p.Maintains vacating I := by
  refine hp.maintains fun γ op h hop => ?_
  cases op with
  | db q => cases q <;> first | exact hop.elim | exact ⟨trivial, fun _ => h⟩
  | createTask => exact ⟨hop, fun _ => h⟩
  | _ => exact ⟨trivial, fun _ => h⟩

theorem submitEntry_vacancy (force : Bool) (entry : ModelEntry) (out : BenchService.Submission) :
    (BenchService.submitEntry force entry out).Maintains vacating fun _ => True := by
  rintro γ -
  have hbenched : (BenchService.benched force entry).Calls (S := sig) Unpaired := by
    unfold BenchService.benched
    split
    · trivial
    · exact calls_s3 trivial
  refine (unpaired_maintains (I := fun _ => True) hbenched).bind trivial (fun benched γ _ => ?_)
    fun _ _ _ => trivial
  split
  · trivial
  refine follows_query_bind trivial (fun active => ?_) fun _ => trivial
  cases active with
  | true => trivial
  | false =>
    -- the pair has been found free, until the run of the entry is created
    have hhf : (BenchService.checkHfExists entry.model).Calls (S := sig) Unpaired :=
      ⟨trivial, calls_answer_bind.2 fun found => by cases found <;> trivial⟩
    refine (unpaired_maintains (I := (· = Vacancy.free (entry.model, entry.engine))) hhf).bind rfl
      (fun _ γ hγ => ?_) fun _ _ _ => trivial
    subst hγ
    have hcreate : (BenchService.createRun entry).Follows vacating (fun _ _ => True)
        (.free (entry.model, entry.engine)) := by
      unfold BenchService.createRun
      split
      · exact ⟨trivial, fun _ => ⟨trivial, fun _ => ⟨.inr rfl, fun e =>
          (Prog.follows_ofExcept e).2 trivial⟩⟩⟩
      · trivial
    refine Prog.follows_bind.2 (hcreate.mono fun γ e _ => ?_)
    cases e <;> trivial

theorem submitEntries_vacancy (force : Bool) (entries : List ModelEntry)
    (out : BenchService.Submission) :
    (BenchService.submitEntries force entries out).Maintains vacating fun _ => True := by
  induction entries generalizing out with
  | nil => exact Prog.maintains_pure out
  | cons entry rest ih => exact Prog.maintains_bind (submitEntry_vacancy force entry out) ih

theorem submit_vacancy (cfg : Config) (force : Bool) (modelFilter : Option String) :
    (BenchService.submit cfg force modelFilter).Maintains vacating fun _ => True := by
  refine Prog.maintains_bind (unpaired_maintains (Prog.calls_ofExcept _)) fun allEntries =>
    Prog.maintains_bind (unpaired_maintains (publishCatalogs_calls cfg _ (fun _ => trivial)
      (fun _ => trivial) fun _ => trivial)) fun _ => ?_
  cases modelFilter with
  | none => exact submitEntries_vacancy force _ _
  | some needle =>
    dsimp only
    split
    · exact fun _ _ => trivial
    · exact submitEntries_vacancy force _ _

theorem unpaired_of_may {n : TaskName} {op : Op} (h : n.may cfg op)
    (hs : ∀ force modelFilter, n ≠ .request (.submit force modelFilter))
    (hc : ∀ body, n ≠ .request (.createRun body)) : Unpaired op := by
  cases op with
  | db q =>
    cases q with
    | hasActiveRun | runCreate =>
      cases n with
      | request req =>
        cases req with
        | submit force modelFilter => exact absurd rfl (hs force modelFilter)
        | createRun body => exact absurd rfl (hc body)
        | _ => exact h.elim
      | _ => exact h.elim
    | _ => trivial
  | createTask m =>
    cases n with
    | request req => cases req <;> first | exact h.elim | (cases h; rfl)
    | pollingLoop | pollTick => cases m <;> first | exact h.elim | rfl
    | _ => exact h.elim
  | _ => trivial

def vacancies (cfg : Config) : Watch (orchestrator cfg) Vacancy where
  protocol := vacating
  start := TaskName.vacancy
  follows n := by
    by_cases hs : ∃ force modelFilter, n = .request (.submit force modelFilter)
    · obtain ⟨force, modelFilter, rfl⟩ := hs
      exact (Prog.maintains_bind (submit_vacancy cfg force modelFilter) fun _ =>
        Prog.maintains_pure ()).follows trivial fun _ _ _ => trivial
    by_cases hc : ∃ body, n = .request (.createRun body)
    · obtain ⟨body, rfl⟩ := hc
      exact ⟨trivial, fun _ => ⟨trivial, fun _ => ⟨.inl rfl, fun e => by cases e <;> trivial⟩⟩⟩
    · refine (unpaired_maintains (I := fun _ => True)
        ((body_calls cfg n).mono fun op h => ?_)).follows trivial fun _ _ _ => trivial
      exact unpaired_of_may h (fun force modelFilter he => hs ⟨force, modelFilter, he⟩)
        fun body he => hc ⟨body, he⟩

/-! ## One insertion at a time -/

def TaskName.posts : TaskName → Bool
  | .request (.createRun _) => true
  | _ => false

theorem TaskName.vacancy_of_not_posts {n : TaskName} (h : n.posts = false) :
    n.vacancy = .none := by
  cases n with
  | request req => cases req <;> first | rfl | cases h
  | _ => rfl

def NoPosts (_ : System cfg) : Step cfg → Prop
  | .arrive n => TaskName.posts n = false
  | _ => True

instance NoPosts.decidable (p : System cfg) : (l : Step cfg) → Decidable (NoPosts p l)
  | .arrive n => inferInstanceAs (Decidable (TaskName.posts n = false))
  | .run .. | .crash _ => isTrue trivial

/-- No other task has found the pair of the run free and is about to create one of its own. -/
def Query.unrivalled (p : System cfg) (g : Nat → Vacancy) (i : Nat) : Query → Prop
  | .runCreate run => ∀ j < p.tasks.length, j ≠ i → ¬ p.Ended j → g j ≠ .free run.pair
  | _ => True

instance Query.decidableUnrivalled (p : System cfg) (g : Nat → Vacancy) (i : Nat) :
    (q : Query) → Decidable (q.unrivalled p g i)
  | .runCreate _ => inferInstanceAs (Decidable (∀ j < p.tasks.length, _))
  | .runGet _ | .claimQueued .. | .countLiveByType | .hasActiveRun .. | .completeRun ..
  | .failRun .. | .setRunning .. | .setLogsUrl .. | .setPhase .. | .claimRunningTimedOut _
  | .getOrphanedProvisioning | .claimProvisioningTimedOut _ | .requeueForRetry .. | .setFailed ..
  | .nodeGet _ | .nodeCreate _ | .nodeSave _ | .createProvisioning .. | .setBusy .. | .getLeaked
  | .setDownByRun _ => isTrue trivial

/-- A run is inserted while no other submit stands between its check of the pair and its own
insertion, and none is POSTed directly. -/
def Unrivalled (p : System cfg) (g : Nat → Vacancy) : Step cfg → Prop
  | .run i e => ∀ c ∈ p.queries (.run i e), e.fault = .before ∨ c.1.unrivalled p g i
  | .arrive n => NoPosts p (.arrive n)
  | .crash _ => True

instance Unrivalled.decidable (p : System cfg) (g : Nat → Vacancy) :
    (l : Step cfg) → Decidable (Unrivalled p g l)
  | .run i e => inferInstanceAs (Decidable (∀ c ∈ p.queries (.run i e), _))
  | .arrive n => inferInstanceAs (Decidable (NoPosts p (.arrive n)))
  | .crash _ => isTrue trivial

section
variable {q : Query} {pick : List RunId} {now : Time} {db db' : Db} {a : q.Resp}

theorem active_of_lawful (h : q.tx pick now db = .ok (a, db')) (hl : Lawful db db') {r : RunId}
    {y : Run} (hy : db'.runs.get r = some y) (ha : y.active = true) :
    (∃ x, db.runs.get r = some x ∧ x.active = true ∧ x.pair = y.pair) ∨ q = .runCreate y := by
  rcases q.rowStep h r with he | ⟨x, y', hx, hy', hw⟩ | ⟨run, rfl, rfl, -, hy'⟩
  · exact .inl ⟨y, he.symm.trans hy, ha, rfl⟩
  · cases hy'.symm.trans hy
    refine .inl ⟨x, hx, ?_, hw.pair_eq.symm⟩
    have hstatus := hl r _ _ (Db.status_of_get hx) (Db.status_of_get hy)
    revert ha hstatus
    unfold Run.active
    cases x.status <;> cases y.status <;> simp [lifecycle, activeRunStatuses]
  · cases hy'.symm.trans hy
    exact .inr rfl

theorem vacant_after (h : q.tx pick now db = .ok (a, db')) (hl : Lawful db db')
    {k : String × Engine} (hk : Vacant db k) (hq : ∀ run, q = .runCreate run → run.pair ≠ k) :
    Vacant db' k := by
  intro r y hy ha
  rcases active_of_lawful h hl hy ha with ⟨x, hx, hxa, hp⟩ | rfl
  · exact hp ▸ hk r x hx hxa
  · exact hq y rfl

theorem onePerPair_after (h : q.tx pick now db = .ok (a, db')) (hl : Lawful db db')
    (hdb : OnePerPair db) (hq : ∀ run, q = .runCreate run → Vacant db run.pair) :
    OnePerPair db' := by
  intro r r' y y' hy hy' ha ha' hp
  rcases active_of_lawful h hl hy ha with ⟨x, hx, hxa, hxp⟩ | hr
  · rcases active_of_lawful h hl hy' ha' with ⟨x', hx', hxa', hxp'⟩ | rfl
    · exact hdb r r' x x' hx hx' hxa hxa' (hxp.trans (hp.trans hxp'.symm))
    · exact absurd (hxp.trans hp) (hq y' rfl r x hx hxa)
  · rcases active_of_lawful h hl hy' ha' with ⟨x', hx', hxa', hxp'⟩ | hr'
    · exact absurd (hxp'.trans hp.symm) (hq y hr r' x' hx' hxa')
    · obtain rfl := Query.runCreate.inj (hr.symm.trans hr')
      exact (Table.key_of_get hy).symm.trans (Table.key_of_get hy')

theorem vacant_of_answer {model : String} {engine : Engine}
    (h : hasActiveRun model engine db = .ok (false, db')) :
    db' = db ∧ Vacant db (model, engine) := by
  obtain ⟨hany, hdb⟩ := Prod.mk.inj (Except.ok.inj h)
  refine ⟨hdb.symm, fun r x hx ha hp => ?_⟩
  have hnone := List.any_eq_false.1 hany x (Table.get_eq_some.1 hx).1
  cases hp
  exact hnone (by simpa [Run.active] using ha)

end

/-- The pairs the tasks have found free have no active run, and no pair has two. -/
structure Paired (p : System cfg) (g : Nat → Vacancy) : Prop where
  one : OnePerPair p.world.db
  free : ∀ i t, p.tasks[i]? = some t → ¬ t.prog.Ended → g i ≠ .any ∧
    ∀ k, g i = .free k → Vacant p.world.db k

section
variable {p : System cfg} {g : Nat → Vacancy} {i : Nat} {n : (orchestrator cfg).Name} {op : sig.Op}
  {next : sig.Resp op → Prog sig Exc Unit} {e : (orchestrator cfg).Env}

inductive Vacancy.Learns (γ : Vacancy) : (op : Op) → op.Resp → Vacancy → Prop
  | same {op : Op} {a : op.Resp} (h : ∀ run, op ≠ .db (.runCreate run)) : γ.Learns op a γ
  | none {op : Op} {a : op.Resp} : γ.Learns op a .none
  | free {model : String} {engine : Engine} :
      γ.Learns (.db (.hasActiveRun model engine)) (.ok false) (.free (model, engine))

theorem Vacancy.learns_after {γ : Vacancy} (hγ : γ ≠ .any) (op : Op) (a : op.Resp) :
    γ.Learns op a (γ.after op a) := by
  unfold Vacancy.after
  split
  · exact .free
  · rw [if_neg hγ]
    exact .none
  · rw [if_neg hγ]
    exact .none
  · rename_i hne
    exact .same fun run hop => by subst hop; exact hne run a rfl HEq.rfl

theorem Paired.after (hJ : Paired p g) (hi : p.tasks[i]? = some ⟨n, .call op next⟩)
    (hpre : (g i).allows op) (hc : Unrivalled p g (.run i e)) (ht : OnTime p (.run i e)) :
    Paired (p.after i n op next e) (Pool.ghost vacating TaskName.vacancy g i op
      ((orchestrator cfg).handle i n op e p.world).1 p.tasks.length
      ((orchestrator cfg).handle i n op e p.world).2.2) := by
  obtain ⟨hany, hfree⟩ := hJ.free i _ hi id
  have hcreate : ∀ run, (op : Op) = .db (.runCreate run) → Vacant p.world.db run.pair := by
    rintro run rfl
    exact hfree _ (Or.resolve_left hpre hany)
  have hdb : (p.after i n op next e).world.db = p.world.db ∨ ∃ (c : Query) (a : c.Resp),
      (op : Op) = .db c ∧ e.fault ≠ .before ∧ Lawful p.world.db (p.after i n op next e).world.db ∧
      c.tx e.pick (p.world.clock + e.elapsed) p.world.db =
        .ok (a, (p.after i n op next e).world.db) := by
    rcases System.after_db p i e n op next with hdb | ⟨c, a, rfl, hf, htx⟩
    · exact .inl hdb
    · have htime := (ht _ (System.queries_run hi)).resolve_left hf
      exact .inr ⟨c, a, rfl, hf, lawful_of_onTime htx htime, htx⟩
  have hkept : ∀ k, Vacant p.world.db k → (∀ run, (op : Op) = .db (.runCreate run) →
      e.fault ≠ .before → run.pair ≠ k) → Vacant (p.after i n op next e).world.db k := by
    intro k hk hne
    rcases hdb with hdb | ⟨c, a, rfl, hf, hlaw, htx⟩
    · rwa [hdb]
    · exact vacant_after htx hlaw hk fun run hrun => hne run (congrArg _ hrun) hf
  refine ⟨?_, fun j t hj hend => ?_⟩
  · rcases hdb with hdb | ⟨c, a, rfl, -, hlaw, htx⟩
    · rw [hdb]
      exact hJ.one
    · exact onePerPair_after htx hlaw hJ.one fun run hrun => hcreate run (congrArg _ hrun)
  · rcases Pool.getElem?_after hj with ⟨rfl, rfl⟩ | ⟨hne, hj'⟩ | ⟨rfl, m, hm, rfl⟩
    · rw [Pool.ghost_self]
      have hlearns := Vacancy.learns_after hany op ((orchestrator cfg).handle j n op e p.world).1
      generalize ha : ((orchestrator cfg).handle j n op e p.world).1 = a at hlearns
      generalize hγ : vacating.post (g j) op a = γ
      rw [show (g j).after op a = γ from hγ] at hlearns
      cases hlearns with
      | same h => exact ⟨hany, fun k hk => hkept k (hfree k hk) fun run hrun => absurd hrun (h run)⟩
      | none => exact ⟨nofun, nofun⟩
      | @free model engine =>
        refine ⟨nofun, ?_⟩
        rintro k ⟨⟩
        replace ha : ((Query.hasActiveRun model engine).run e (p.world.clock + e.elapsed)
          p.world.db).1 = .ok false := ha
        obtain ⟨-, hvacant⟩ := vacant_of_answer (Query.run_ok ha)
        exact hkept _ hvacant fun run hrun => by cases hrun
    · rw [Pool.ghost_other hne (Nat.ne_of_lt (Pool.lt_of_getElem? hj'))]
      obtain ⟨hany', hfree'⟩ := hJ.free j t hj' hend
      refine ⟨hany', fun k hk => hkept k (hfree' k hk) ?_⟩
      rintro run rfl hf rfl
      exact (hc _ (System.queries_run hi)).resolve_left hf j (Pool.lt_of_getElem? hj') hne
        (Pool.not_ended hj' hend) hk
    · rw [hm, Pool.ghost_new (Pool.lt_of_getElem? hi)]
      cases op with
      | createTask m' =>
        cases hm
        rw [show TaskName.vacancy m = .none from hpre]
        exact ⟨nofun, nofun⟩
      | _ => cases hm

end

/-- The condition on both watches: what a task has a stake in, and the pairs it has found free. -/
def Uncontested (p : System cfg) (g : Nat → Stake × Vacancy) (l : Step cfg) : Prop :=
  Undisturbed p (fun j => (g j).1) l ∧ Unrivalled p (fun j => (g j).2) l

instance Uncontested.decidable (p : System cfg) (g : Nat → Stake × Vacancy) (l : Step cfg) :
    Decidable (Uncontested p g l) := inferInstanceAs (Decidable (_ ∧ _))

theorem paired_of_reach {p : System cfg} {g : Nat → Vacancy} (h₀ : OnePerPair w.db)
    (h : Pool.ReachWith (vacancies cfg) (fun p g l => Unrivalled p g l ∧ OnTime p l)
      (System.start cfg w) (vacancies cfg).boot p g) : Paired p g := by
  have hboot : ∀ w : World, OnePerPair w.db →
      Paired (Pool.boot w : System cfg) (vacancies cfg).boot := fun w hw =>
    ⟨hw, fun _ _ _ _ => ⟨nofun, nofun⟩⟩
  refine h.invariant (J := Paired) (Pool.TrackedTo.boot _ (vacancies cfg).follows) (hboot _ h₀)
    (fun p g i e n op next _ hJ hi hpre hc => hJ.after hi hpre hc.1 hc.2) (fun p g n hJ hn hc => ?_)
    fun p g e hJ _ => hboot _ hJ.one
  refine ⟨hJ.one, fun j t hj hend => ?_⟩
  rcases Pool.getElem?_arrive hj with hj | ⟨rfl, rfl⟩
  · rw [Function.update_of_ne (Nat.ne_of_lt (Pool.lt_of_getElem? hj))]
    exact hJ.free j t hj hend
  · rw [Function.update_self]
    rw [show (vacancies cfg).start n = .none from TaskName.vacancy_of_not_posts hc.1]
    exact ⟨nofun, nofun⟩

/-- When runs are inserted one submit at a time for each pair and no task takes a run from another,
no pair ever has two active runs. -/
theorem one_active_of_uncontested {p : System cfg} {g : Nat → Stake × Vacancy} (h₀ : OnePerPair w.db)
    (h : Pool.ReachWith ((stakes cfg).prod (vacancies cfg)) Uncontested (System.start cfg w)
      ((stakes cfg).prod (vacancies cfg)).boot p g) : OnePerPair p.world.db := by
  have hstakes : ∀ p g, Pool.ReachWith ((stakes cfg).prod (vacancies cfg)) Uncontested
      (System.start cfg w) ((stakes cfg).prod (vacancies cfg)).boot p g →
      Pool.ReachWith (stakes cfg) Undisturbed (System.start cfg w) (stakes cfg).boot p
        fun j => (g j).1 := fun p g hr => hr.fst fun _ _ _ _ hc => hc.1
  exact (paired_of_reach h₀ (h.snd fun p g l hr hc =>
    ⟨hc.2, onTime_of_reach (hstakes p g hr) hc.1⟩)).one

theorem onePerPair_empty : OnePerPair .empty := by
  intro r r' x y hx
  cases hx

namespace Sample

/-- A deployment with one entry in `models.yaml`. -/
def bench : Config :=
  { config with loadModels := .ok [{ model := "m", engine := .vllm, sizeB := 8 }] }

def submit : TaskName := .request (.submit false none)

/-- A submit (task 1) is about to insert its run: the pair had none when it looked. -/
def asked : List (Step bench) :=
  .arrive submit :: List.replicate 6 (.run 1 {}) ++ [.run 1 { uuid := 7 }, .run 1 {}]

/-- A second submit (task 2) is under way when the first inserts, and looks afterwards. -/
def benchedOnce : List (Step bench) :=
  asked ++ .arrive submit :: List.replicate 4 (.run 2 {}) ++ [.run 1 {}, .run 2 { uuid := 8 }]

/-- A second submit (task 2) that looks before the first inserts, and inserts first. -/
def overtaken : List (Step bench) :=
  asked ++ .arrive submit :: List.replicate 6 (.run 2 {}) ++
    [.run 2 { uuid := 8 }, .run 2 {}, .run 2 {}, .run 1 {}]

end Sample

open Sample in
theorem one_active_of_benchedOnce :
    let p := (System.start bench world).play benchedOnce
    OnePerPair p.world.db ∧ p.Ended 2 ∧ ∃ x ∈ p.world.db.runs.get 7, x.active = true := by
  have hp : (System.start bench world).exec benchedOnce =
      some ((System.start bench world).play benchedOnce) := Pool.exec_play _ _ (by decide +kernel)
  have hobeys : (System.start bench world).ObeysWith ((stakes bench).prod (vacancies bench))
      Uncontested ((stakes bench).prod (vacancies bench)).boot benchedOnce := by decide +kernel
  obtain ⟨g, hg⟩ := hobeys.reachWith hp
  exact ⟨one_active_of_uncontested onePerPair_empty hg, by decide +kernel, by decide +kernel⟩

/-- Both submits have found no active run of the pair when they insert one each. -/
theorem two_active : ¬ ∀ p : System Sample.bench,
    Pool.Reach NoPosts (System.start Sample.bench Sample.world) p → OnePerPair p.world.db := by
  intro h
  have hone := h _ (Pool.reach_play_of_obeys _ Sample.overtaken (by decide) (by decide))
  have htwo :
      ∃ x ∈ ((System.start Sample.bench Sample.world).play Sample.overtaken).world.db.runs.get 7,
      ∃ y ∈ ((System.start Sample.bench Sample.world).play Sample.overtaken).world.db.runs.get 8,
        x.active = true ∧ y.active = true ∧ x.pair = y.pair := by decide
  obtain ⟨x, hx, y, hy, ha, ha', hp⟩ := htwo
  exact absurd (hone 7 8 x y hx hy ha ha' hp) (by decide)

end GrillPlatform
