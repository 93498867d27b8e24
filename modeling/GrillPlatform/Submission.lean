import GrillPlatform.ActivePairs
import GrillPlatform.Coroutine.Solo
import GrillPlatform.Seq.Firsts

/-! What one `submit` creates with no other task, how many that is against the count of the CI
preflight, and what a second call adds after a fault. -/

namespace GrillPlatform
open Coroutine RunRepository BenchService
variable {cfg : Config} {w w' : World} {ω ω' : Nat → Env}

def served (cfg : Config) (op : Op) (e : Env) (w : World) : op.Resp × World :=
  World.call cfg 0 e { w with clock := w.clock + e.elapsed } op

section
variable {α : Type}

theorem exec_query (q : Query) (ω : Nat → Env) (w : World) :
    (query q).exec (S := sig) (served cfg) ω w =
      ((q.run (ω 0) (w.clock + (ω 0).elapsed) w.db).1,
        { w with clock := w.clock + (ω 0).elapsed,
                 db := (q.run (ω 0) (w.clock + (ω 0).elapsed) w.db).2 },
        fun k => ω (k + 1)) :=
  Prog.exec_ofExcept _ _ _

theorem exec_ofExcept_ok {x : Except Exc α} {a : α}
    (h : (Prog.ofExcept x : Async α).exec (S := sig) (served cfg) ω w = (.ok a, w', ω')) :
    x = .ok a ∧ w' = w ∧ ω' = ω := by
  rw [Prog.exec_ofExcept] at h
  obtain ⟨hx, hw⟩ := Prod.mk.inj h
  obtain ⟨hw, hω⟩ := Prod.mk.inj hw
  exact ⟨hx, hw.symm, hω.symm⟩

theorem exec_s3 (q : S3Call) (ω : Nat → Env) (w : World) :
    (s3 q).exec (S := sig) (served cfg) ω w = ((q.run (ω 0) w.s3).1,
      { w with clock := w.clock + (ω 0).elapsed, s3 := (q.run (ω 0) w.s3).2 },
      fun k => ω (k + 1)) :=
  Prog.exec_ofExcept _ _ _

end

def ModelEntry.pair (e : ModelEntry) : String × Engine := (e.model, e.engine)

/-- The dedup signal does not hold the entry back. -/
def unmarked (force : Bool) (s3 : S3) (e : ModelEntry) : Bool :=
  force || (s3 (latestMetaKey e.model e.engine)).isNone

def pairActive (db : Db) (k : String × Engine) : Bool :=
  db.runs.rows.any fun run => run.pair = k ∧ run.active

def wanted (force : Bool) (w : World) (e : ModelEntry) : Bool :=
  unmarked force w.s3 e && !pairActive w.db e.pair

/-- The entries that get a run: the first one of each pair that has no active run and, unless
forced, no `latest.meta.json`. -/
def due (force : Bool) (w : World) (entries : List ModelEntry) : List ModelEntry :=
  Seq.firsts ModelEntry.pair [] (entries.filter (wanted force w))

def ModelEntry.run (e : ModelEntry) (id : RunId) (createdAt : Time) : Run :=
  { id, model := e.model, modelSizeB := e.sizeB, engine := e.engine,
    gpuTypeRequired := selectGpu e.sizeB, scenarioPath := e.scenario, ggufFile := e.ggufFile,
    createdAt }

def Made (e : ModelEntry) (run : Run) : Prop := run = e.run run.id run.createdAt

/-- The runs have been added, and nothing else that a submit looks at has changed. -/
structure Grown (w w' : World) (runs : List Run) : Prop where
  runs : w'.db.runs.rows = w.db.runs.rows ++ runs
  nodes : w'.db.nodes = w.db.nodes
  results : w'.db.results = w.db.results
  marks : ∀ model engine, w'.s3 (latestMetaKey model engine) = w.s3 (latestMetaKey model engine)

theorem Grown.refl (w : World) : Grown w w [] :=
  ⟨(List.append_nil _).symm, rfl, rfl, fun _ _ => rfl⟩

theorem Grown.of_same (hdb : w'.db = w.db) (hs3 : w'.s3 = w.s3) : Grown w w' [] :=
  ⟨by rw [hdb, List.append_nil], by rw [hdb], by rw [hdb], fun _ _ => by rw [hs3]⟩

theorem Grown.trans {w'' : World} {runs runs' : List Run} (h : Grown w w' runs)
    (h' : Grown w' w'' runs') : Grown w w'' (runs ++ runs') where
  runs := by rw [h'.runs, h.runs, List.append_assoc]
  nodes := h'.nodes.trans h.nodes
  results := h'.results.trans h.results
  marks m e := (h'.marks m e).trans (h.marks m e)

section
variable {force : Bool} {runs : List Run}

theorem Grown.unmarked (h : Grown w w' runs) (e : ModelEntry) :
    unmarked force w'.s3 e = unmarked force w.s3 e := by
  rw [GrillPlatform.unmarked, GrillPlatform.unmarked, h.marks]

theorem Grown.pairActive (h : Grown w w' runs) (k : String × Engine) :
    pairActive w'.db k = (pairActive w.db k || runs.any fun run => run.pair = k ∧ run.active) := by
  rw [GrillPlatform.pairActive, h.runs, List.any_append]
  rfl

end

theorem hasActiveRun_eq (model : String) (engine : Engine) (db : Db) :
    hasActiveRun model engine db = .ok (pairActive db (model, engine), db) := by
  have hany : ∀ run : Run, decide (run.model = model ∧ run.engine = engine ∧
      run.status ∈ activeRunStatuses) = decide (run.pair = (model, engine) ∧ run.active) := by
    intro run
    simp [Run.pair, Run.active, and_assoc]
  simp only [hasActiveRun, pairActive, hany]

theorem Made.pair {e : ModelEntry} {run : Run} (h : Made e run) : run.pair = e.pair := by
  rw [h]
  rfl

theorem Made.active {e : ModelEntry} {run : Run} (h : Made e run) : run.active = true := by
  rw [h]
  rfl

theorem mem_made {es : List ModelEntry} {runs : List Run} (h : List.Forall₂ Made es runs)
    (k : String × Engine) : (runs.any fun run => run.pair = k ∧ run.active) =
      decide (k ∈ es.map ModelEntry.pair) := by
  induction h with
  | nil => rfl
  | @cons e run es runs he _ ih =>
    rw [List.any_cons, ih, he.pair, he.active, List.map_cons]
    by_cases hk : k = e.pair
    · simp [hk]
    · simp [hk, Ne.symm hk]

theorem due_grown {force : Bool} {es : List ModelEntry} {runs : List Run} (h : Grown w w' runs)
    (hm : List.Forall₂ Made es runs) (entries : List ModelEntry) : due force w' entries =
      Seq.firsts ModelEntry.pair (es.map ModelEntry.pair)
        (entries.filter (wanted force w)) := by
  rw [← List.append_nil (es.map ModelEntry.pair), Seq.firsts_filter, List.filter_filter, due]
  refine congrArg (Seq.firsts ModelEntry.pair []) (List.filter_congr fun e _ => ?_)
  rw [wanted, wanted, h.unmarked, h.pairActive, mem_made hm]
  by_cases hk : e.pair ∈ es.map ModelEntry.pair <;> simp [hk]

/-- The schema takes the size, and so does its column. -/
def ModelEntry.Sized (e : ModelEntry) : Prop := 0 < e.sizeB ∧ e.sizeB < 2 ^ 31

def ModelEntry.label (e : ModelEntry) : String := s!"{e.model} [{e.engine.format}]"

/-- An entry under `skipped`. -/
def Skipped (e : ModelEntry) (label : String) : Prop :=
  label = e.label ∨ label = s!"{e.label} (already active)"

/-- What a submit does with an entry. -/
inductive Handled (force : Bool) (e : ModelEntry) (w w' : World) (out out' : Submission) : Prop
  | skipped (label : String) (hl : Skipped e label) (hs : wanted force w e = false)
      (hg : Grown w w' []) (ho : out' = out.skip label)
  | submitted (run : Run) (hs : wanted force w e = true) (hpos : e.Sized)
      (hg : Grown w w' [run]) (hm : Made e run) (ho : out' = out.submit run)

section
variable {force : Bool} {e : ModelEntry} {out out' : Submission}

theorem query_ok {q : Query} {a : q.Resp}
    (h : (query q).exec (S := sig) (served cfg) ω w = (.ok a, w', ω')) :
    q.tx (ω 0).pick (w.clock + (ω 0).elapsed) w.db = .ok (a, w'.db) ∧ w'.s3 = w.s3 := by
  rw [exec_query] at h
  obtain ⟨ha, hw⟩ := Prod.mk.inj h
  obtain ⟨rfl, -⟩ := Prod.mk.inj hw
  exact ⟨Query.run_ok ha, rfl⟩

theorem headObject_ok {key : S3Key} {b : Bool}
    (h : (s3 (.headObject key)).exec (S := sig) (served cfg) ω w = (.ok b, w', ω')) :
    b = (w.s3 key).isSome ∧ w'.db = w.db ∧ w'.s3 = w.s3 := by
  rw [exec_s3] at h
  obtain ⟨ha, hw⟩ := Prod.mk.inj h
  obtain ⟨rfl, -⟩ := Prod.mk.inj hw
  simp only [S3Call.run, Env.guard] at ha ⊢
  cases hf : (ω 0).fault <;> simp_all

theorem benched_ok {b : Bool}
    (h : (BenchService.benched force e).exec (S := sig) (served cfg) ω w = (.ok b, w', ω')) :
    b = !unmarked force w.s3 e ∧ w'.db = w.db ∧ w'.s3 = w.s3 := by
  unfold BenchService.benched at h
  cases force with
  | true =>
    cases h
    exact ⟨rfl, rfl, rfl⟩
  | false =>
    obtain ⟨rfl, hw⟩ := headObject_ok h
    exact ⟨by simp [unmarked], hw⟩

theorem checkHfExists_ok {model : String} {u : Unit}
    (h : (checkHfExists model).exec (S := sig) (served cfg) ω w = (.ok u, w', ω')) :
    w'.db = w.db ∧ w'.s3 = w.s3 := by
  obtain ⟨found, w₁, ω₁, hcall, h⟩ := Prog.exec_bind_ok.1 h
  have hw : w'.db = w₁.db ∧ w'.s3 = w₁.s3 := by
    split at h <;> cases h
    exact ⟨rfl, rfl⟩
  have hw₁ : w₁.db = w.db ∧ w₁.s3 = w.s3 := by
    have hanswer := (Prog.exec_ofExcept _ _ _).symm.trans hcall
    obtain ⟨-, hw⟩ := Prod.mk.inj hanswer
    obtain ⟨rfl, -⟩ := Prod.mk.inj hw
    exact ⟨rfl, rfl⟩
  exact ⟨hw.1.trans hw₁.1, hw.2.trans hw₁.2⟩

theorem createRun_ok {run : Run}
    (h : (createRun e).exec (S := sig) (served cfg) ω w = (.ok run, w', ω')) :
    e.Sized ∧ Made e run ∧ Grown w w' [run] := by
  unfold createRun at h
  split at h
  · -- the id, the time of creation, and the row
    rename_i hpos
    obtain ⟨htx, hs3⟩ := query_ok (w := { w with clock := _ }) (ω := fun k => ω (k + 2)) h
    obtain ⟨hsize, rfl, runs, hi, hdb⟩ := create_ok htx
    refine ⟨⟨hpos, (of_decide_eq_true hsize).2⟩, rfl, ⟨?_, ?_, ?_, fun _ _ => by rw [hs3]⟩⟩
    · rw [hdb]
      exact (Table.rows_insert hi).1
    · rw [hdb]
    · rw [hdb]
  · cases h

theorem submitEntry_ok
    (h : (submitEntry force e out).exec (S := sig) (served cfg) ω w = (.ok out', w', ω')) :
    Handled force e w w' out out' := by
  obtain ⟨b, w₁, ω₁, hb, h⟩ := Prog.exec_bind_ok.1 h
  obtain ⟨rfl, hdb, hs3⟩ := benched_ok hb
  split at h
  · rename_i hmark
    cases h
    exact .skipped _ (.inl rfl) (by simp_all [wanted]) (.of_same hdb hs3) rfl
  · rename_i hmark
    obtain ⟨active, w₂, ω₂, hq, h⟩ := Prog.exec_bind_ok.1 h
    obtain ⟨htx, hs3'⟩ := query_ok hq
    rw [Query.tx, hasActiveRun_eq, hdb] at htx
    obtain ⟨rfl, hdb'⟩ := Prod.mk.inj (Except.ok.inj htx)
    split at h
    · rename_i hact
      cases h
      refine .skipped _ (.inr rfl) ?_ (.of_same hdb'.symm (hs3'.trans hs3)) rfl
      rw [wanted, show pairActive w.db e.pair = true from hact, Bool.not_true, Bool.and_false]
    · rename_i hact
      obtain ⟨_, w₃, ω₃, hhf, h⟩ := Prog.exec_bind_ok.1 h
      obtain ⟨run, w₄, ω₄, hcreate, h⟩ := Prog.exec_bind_ok.1 h
      cases h
      obtain ⟨hdb₃, hs3₃⟩ := checkHfExists_ok hhf
      obtain ⟨hpos, hmade, hgrown⟩ := createRun_ok hcreate
      have hsame : Grown w w₃ [] :=
        .of_same (hdb₃.trans hdb'.symm) (hs3₃.trans (hs3'.trans hs3))
      have hidle : pairActive w.db e.pair = false := Bool.eq_false_iff.2 hact
      exact .submitted run (by simp_all [wanted]) hpos (hsame.trans hgrown) hmade rfl

end

/-! ## All entries -/

/-- What a submit whose loop returns has done. Its answer lists the runs, and the entries that got
none. -/
structure Submitted (force : Bool) (entries : List ModelEntry) (w w' : World)
    (out out' : Submission) (runs : List Run) : Prop where
  grown : Grown w w' runs
  made : List.Forall₂ Made (due force w entries) runs
  sized : ∀ e ∈ due force w entries, e.Sized
  submitted : out'.submitted = out.submitted ++ runs.map fun run => uuidStr run.id
  skipped : ∃ rest labels, rest.Sublist entries ∧ (due force w entries ++ rest).Perm entries ∧
    List.Forall₂ Skipped rest labels ∧ out'.skipped = out.skipped ++ labels

theorem Submitted.nil (force : Bool) (w : World) (out : Submission) :
    Submitted force [] w w out out [] where
  grown := .refl w
  made := .nil
  sized _ he := absurd he List.not_mem_nil
  submitted := (List.append_nil _).symm
  skipped := ⟨[], [], .slnil, .nil, .nil, (List.append_nil _).symm⟩

section
variable {force : Bool} {e : ModelEntry} {entries : List ModelEntry}

theorem due_cons_of_not (h : wanted force w e = false) :
    due force w (e :: entries) = due force w entries := by
  rw [due, due, List.filter_cons_of_neg (by simpa using h)]

theorem due_cons {run : Run} (h : wanted force w e = true) (hg : Grown w w' [run])
    (hm : Made e run) : due force w (e :: entries) = e :: due force w' entries := by
  rw [due_grown hg (.cons hm .nil), due, List.filter_cons_of_pos h, Seq.firsts,
    if_neg List.not_mem_nil]
  rfl

theorem due_same (h : Grown w w' []) : due force w' entries = due force w entries :=
  due_grown h .nil entries

theorem Submitted.cons {w₁ w₂ : World} {out out₁ out₂ : Submission} {runs : List Run}
    (hr : Submitted force entries w₁ w₂ out₁ out₂ runs) (h : Handled force e w w₁ out out₁) :
    ∃ runs', Submitted force (e :: entries) w w₂ out out₂ runs' := by
  obtain ⟨rest, labels, hsub, hperm, hlabels, hskipped⟩ := hr.skipped
  cases h with
  | skipped label hl hs hg ho =>
    subst ho
    have hdue : due force w (e :: entries) = due force w₁ entries :=
      (due_cons_of_not hs).trans (due_same hg).symm
    refine ⟨runs, hg.trans hr.grown, hdue ▸ hr.made, hdue ▸ hr.sized, hr.submitted,
      e :: rest, label :: labels, hsub.cons_cons e, ?_, .cons hl hlabels, ?_⟩
    · rw [hdue]
      exact List.perm_middle.trans (hperm.cons e)
    · rw [hskipped, Submission.skip, List.append_assoc]
      rfl
  | submitted run hs hpos hg hm ho =>
    subst ho
    have hdue : due force w (e :: entries) = e :: due force w₁ entries := due_cons hs hg hm
    refine ⟨run :: runs, hg.trans hr.grown, hdue ▸ .cons hm hr.made, ?_, ?_, rest, labels,
      hsub.cons e, ?_, hlabels, hskipped⟩
    · rw [hdue]
      exact List.forall_mem_cons.2 ⟨hpos, hr.sized⟩
    · rw [hr.submitted, Submission.submit, List.append_assoc]
      rfl
    · rw [hdue]
      exact hperm.cons e

end

theorem submitEntries_ok {force : Bool} {entries : List ModelEntry} {out out' : Submission}
    (h : (submitEntries force entries out).exec (S := sig) (served cfg) ω w = (.ok out', w', ω')) :
    ∃ runs, Submitted force entries w w' out out' runs := by
  induction entries generalizing out ω w with
  | nil =>
    cases h
    exact ⟨[], .nil force _ _⟩
  | cons e entries ih =>
    obtain ⟨out₁, w₁, ω₁, he, hr⟩ := Prog.exec_bind_ok.1 h
    obtain ⟨runs, hruns⟩ := ih hr
    exact hruns.cons (submitEntry_ok he)

theorem Submitted.of_grown {force : Bool} {entries : List ModelEntry} {w₀ : World}
    {out out' : Submission} {runs : List Run} (hg : Grown w w₀ [])
    (h : Submitted force entries w₀ w' out out' runs) :
    Submitted force entries w w' out out' runs := by
  obtain ⟨hgrown, hmade, hsized, hsubmitted, hskipped⟩ := h
  rw [due_same hg] at hmade hsized hskipped
  exact ⟨hg.trans hgrown, hmade, hsized, hsubmitted, hskipped⟩

theorem putObject_grown {key : S3Key} {body : S3Body} {r : Except Exc Unit}
    (hkey : ∀ model engine, latestMetaKey model engine ≠ key)
    (h : (s3 (.putObject key body)).exec (S := sig) (served cfg) ω w = (r, w', ω')) :
    Grown w w' [] := by
  rw [exec_s3] at h
  obtain ⟨ha, hw⟩ := Prod.mk.inj h
  obtain ⟨rfl, -⟩ := Prod.mk.inj hw
  refine ⟨(List.append_nil _).symm, rfl, rfl, fun model engine => ?_⟩
  simp only [S3Call.run, Env.guard]
  cases (ω 0).fault <;> first | rfl | exact Function.update_of_ne (hkey model engine) ..

theorem publishCatalogs_ok {entries : List ModelEntry} {u : Unit}
    (h : (publishCatalogs cfg entries).exec (S := sig) (served cfg) ω w = (.ok u, w', ω')) :
    Grown w w' [] := by
  obtain ⟨_, w₁, ω₁, hmodels, h₁⟩ := Prog.exec_bind_ok.1 h
  obtain ⟨scenarios, w₂, ω₂, hcat, h₂⟩ := Prog.exec_bind_ok.1 h₁
  obtain ⟨-, hw, hω⟩ := exec_ofExcept_ok hcat
  subst hw hω
  obtain ⟨_, w₃, ω₃, hscenarios, hengines⟩ := Prog.exec_bind_ok.1 h₂
  exact (putObject_grown (fun _ _ => S3Key.noConfusion) hmodels).trans
    ((putObject_grown (fun _ _ => S3Key.noConfusion) hscenarios).trans
      (putObject_grown (fun _ _ => S3Key.noConfusion) hengines))

theorem submit_ok {force : Bool} {modelFilter : Option String} {out : Submission}
    (h : (submit cfg force modelFilter).exec (S := sig) (served cfg) ω w = (.ok out, w', ω')) :
    ∃ entries runs, cfg.loadModels = .ok entries ∧
      Submitted force (filterEntries cfg.unicode entries modelFilter) w w' {} out runs := by
  obtain ⟨entries, w₁, ω₁, hread, h₁⟩ := Prog.exec_bind_ok.1 h
  obtain ⟨hload, hw, hω⟩ := exec_ofExcept_ok hread
  subst hw hω
  obtain ⟨_, w₂, ω₂, hcat, h₂⟩ := Prog.exec_bind_ok.1 h₁
  have hloop : (submitEntries force (filterEntries cfg.unicode entries modelFilter) {}).exec
      (S := sig) (served cfg) ω₂ w₂ = (.ok out, w', ω') := by
    cases modelFilter with
    | none => exact h₂
    | some needle =>
      dsimp only at h₂
      split at h₂
      · cases h₂
      · exact h₂
  obtain ⟨runs, hruns⟩ := submitEntries_ok hloop
  exact ⟨entries, runs, hload, hruns.of_grown (publishCatalogs_ok hcat)⟩

theorem headAll_ok {entries : List ModelEntry} {flags : List Bool}
    (h : (headAll entries).exec (S := sig) (served cfg) ω w = (.ok flags, w', ω')) :
    flags = entries.map fun e => !unmarked false w.s3 e := by
  induction entries generalizing flags ω w with
  | nil =>
    cases h
    rfl
  | cons e entries ih =>
    obtain ⟨b, w₁, ω₁, hb, h⟩ := Prog.exec_bind_ok.1 h
    obtain ⟨bs, w₂, ω₂, hbs, h⟩ := Prog.exec_bind_ok.1 h
    cases h
    obtain ⟨rfl, -, hs3⟩ := headObject_ok hb
    rw [ih hbs, hs3]
    simp [unmarked]

theorem pendingRunCount_ok {force : Bool} {modelFilter : Option String} {n : Nat}
    (h : (pendingRunCount cfg force modelFilter).exec (S := sig) (served cfg) ω w =
      (.ok n, w', ω')) : ∃ entries, cfg.loadModels = .ok entries ∧
        n = ((filterEntries cfg.unicode entries modelFilter).filter
          (unmarked force w.s3)).length := by
  obtain ⟨entries, w₁, ω₁, hread, h₁⟩ := Prog.exec_bind_ok.1 h
  obtain ⟨hload, hw, hω⟩ := exec_ofExcept_ok hread
  subst hw hω
  refine ⟨entries, hload, ?_⟩
  split at h₁
  · rename_i hforce
    cases h₁
    have hall : (filterEntries cfg.unicode entries modelFilter).filter (unmarked force w'.s3) =
        filterEntries cfg.unicode entries modelFilter :=
      List.filter_eq_self.2 fun e _ => by rw [unmarked, hforce, Bool.true_or]
    rw [hall]
  · rename_i hforce
    obtain ⟨flags, w₂, ω₂, hflags, h₂⟩ := Prog.exec_bind_ok.1 h₁
    cases h₂
    rw [headAll_ok hflags, List.countP_map, List.countP_eq_length_filter]
    simp [hforce, Function.comp_def]

def counted (u : Unicode) (force : Bool) (modelFilter : Option String) (s3 : S3)
    (entries : List ModelEntry) : List ModelEntry :=
  (filterEntries u entries modelFilter).filter (unmarked force s3)

/-- A submit to a database without active runs creates one run for each pair among the entries that
the preflight counts, so as many as it counts when no pair is counted twice. -/
theorem submit_of_pending {force : Bool} {modelFilter : Option String} {out : Submission} {n : Nat}
    {v v' : World} {ω₁ ω₂ : Nat → Env} (hidle : ∀ run ∈ w.db.runs.rows, run.active = false)
    (hs3 : v.s3 = w.s3)
    (hsubmit : (submit cfg force modelFilter).exec (S := sig) (served cfg) ω w = (.ok out, w', ω₁))
    (hpending : (pendingRunCount cfg force modelFilter).exec (S := sig) (served cfg) ω' v =
      (.ok n, v', ω₂)) :
    ∃ entries runs, cfg.loadModels = .ok entries ∧ w'.db.runs.rows = w.db.runs.rows ++ runs ∧
      let pairs := (counted cfg.unicode force modelFilter w.s3 entries).map ModelEntry.pair
      n = pairs.length ∧ runs.length = pairs.dedup.length ∧
      (runs.length = n ↔ pairs.Nodup) ∧ (runs = [] ↔ n = 0) := by
  obtain ⟨entries, runs, hload, hruns⟩ := submit_ok hsubmit
  obtain ⟨entries', hload', rfl⟩ := pendingRunCount_ok hpending
  cases hload.symm.trans hload'
  have hdue : due force w (filterEntries cfg.unicode entries modelFilter) =
      Seq.firsts ModelEntry.pair [] (counted cfg.unicode force modelFilter w.s3 entries) := by
    refine congrArg (Seq.firsts ModelEntry.pair []) (List.filter_congr fun e _ => ?_)
    have hnone : pairActive w.db e.pair = false := by
      simpa [pairActive] using fun run hr _ => hidle run hr
    rw [wanted, hnone, Bool.not_false, Bool.and_true]
  have hlen := hruns.made.length_eq
  rw [hdue] at hlen
  rw [hs3]
  refine ⟨entries, runs, hload, hruns.grown.runs, (List.length_map _).symm, ?_, ?_, ?_⟩
  · rw [← hlen, Seq.length_firsts]
  · rw [← hlen]
    exact Seq.length_firsts_eq_iff
  · rw [← List.length_eq_zero_iff, ← hlen, List.length_eq_zero_iff, List.length_eq_zero_iff]
    exact Seq.firsts_eq_nil

namespace Sample

/-- The same model and engine twice in `models.yaml`. -/
def twice : Config :=
  { config with loadModels := .ok [{ model := "m", engine := .vllm, sizeB := 8 },
      { model := "m", engine := .vllm, sizeB := 8, scenario := "scenarios/burst.yaml" }] }

/-- A submit with an answer of the environment that never changes. -/
def submitted (cfg : Config) : Except Exc Submission × World × (Nat → Env) :=
  (BenchService.submit cfg false none).exec (S := sig) (served cfg) (fun _ => {}) world

def preflight (cfg : Config) : Except Exc Nat × World × (Nat → Env) :=
  (pendingRunCount cfg false none).exec (S := sig) (served cfg) (fun _ => {}) world

end Sample

open Sample in
theorem submit_of_pending_twice : ∃ entries runs, twice.loadModels = .ok entries ∧
    (submitted twice).2.1.db.runs.rows = [] ++ runs ∧
    let pairs := (counted twice.unicode false none world.s3 entries).map ModelEntry.pair
    2 = pairs.length ∧ runs.length = pairs.dedup.length ∧
      (runs.length = 2 ↔ pairs.Nodup) ∧ (runs = [] ↔ 2 = 0) :=
  submit_of_pending (w := world) (v := world) (fun _ h => absurd h List.not_mem_nil) rfl
    (show (BenchService.submit twice false none).exec (S := sig) (served twice)
      (fun _ => {}) world =
      (.ok ⟨[uuidStr 0], ["m [Engine.vllm] (already active)"]⟩, (submitted twice).2) from rfl)
    (show (pendingRunCount twice false none).exec (S := sig) (served twice) (fun _ => {}) world =
      (.ok 2, (preflight twice).2) from rfl)

/-- The second entry of the pair is counted and gets no run. -/
theorem pending_counts_twice : ¬ ∀ (cfg : Config) (force : Bool) (modelFilter : Option String)
    (w w' v' : World) (ω ω' ω₁ ω₂ : Nat → Env) (out : Submission) (n : Nat),
    (∀ run ∈ w.db.runs.rows, run.active = false) → (∀ k, (ω k).repoFound = true) →
    (submit cfg force modelFilter).exec (S := sig) (served cfg) ω w = (.ok out, w', ω₁) →
    (pendingRunCount cfg force modelFilter).exec (S := sig) (served cfg) ω' w = (.ok n, v', ω₂) →
    w'.db.runs.rows.length = w.db.runs.rows.length + n := by
  intro h
  have hlen :=
    h Sample.twice false none Sample.world _ _ (fun _ => {}) (fun _ => {}) _ _ ⟨[uuidStr 0],
    ["m [Engine.vllm] (already active)"]⟩ 2 (fun _ h => absurd h List.not_mem_nil) (fun _ => rfl)
    (show _ = (_, (Sample.submitted Sample.twice).2) from rfl)
    (show _ = (_, (Sample.preflight Sample.twice).2) from rfl)
  exact absurd hlen (by decide)

end GrillPlatform
