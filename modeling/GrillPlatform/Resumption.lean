import GrillPlatform.Submission

/-! A submit that S3 or HuggingFace stops at some entry, and a later one that meets no fault. -/

namespace GrillPlatform
open Coroutine RunRepository BenchService
variable {cfg : Config} {w w' : World} {ω ω' : Nat → Env} {force : Bool}

/-- The call does not fail, HuggingFace has the repository, and a new id is new. -/
def NoFault (op : Op) (e : Env) (w : World) : Prop :=
  e.fault = .none ∧ e.repoFound = true ∧ match op with
    | .uuid4 => w.db.runs.get e.uuid = none
    | _ => True

instance NoFault.decidable : (op : Op) → (e : Env) → (w : World) → Decidable (NoFault op e w)
  | .uuid4, e, w =>
    inferInstanceAs (Decidable (e.fault = .none ∧ e.repoFound = true ∧ w.db.runs.get e.uuid = none))
  | .db _, e, _ | .s3 _, e, _ | .tf _, e, _ | .workspaceExists _, e, _ | .modelInfo _, e, _
  | .enter .., e, _ | .leave .., e, _ | .now, e, _ | .sleep _, e, _ | .getQuota _, e, _
  | .fetchGpuQuota, e, _ | .updateQuota _, e, _ | .createTask _, e, _ =>
    inferInstanceAs (Decidable (e.fault = .none ∧ e.repoFound = true ∧ True))

section
variable {e : ModelEntry} {out : Submission}

theorem ModelEntry.Sized.isInteger (h : e.Sized) : RunRepository.isInteger e.sizeB = true := by
  obtain ⟨hpos, hmax⟩ := h
  exact decide_eq_true ⟨by omega, hmax⟩

end

theorem submit_eq {modelFilter : Option String} {all : List ModelEntry}
    (hload : cfg.loadModels = .ok all) (hne : filterEntries cfg.unicode all modelFilter ≠ []) :
    submit cfg force modelFilter = (publishCatalogs cfg all).bind fun _ =>
      submitEntries force (filterEntries cfg.unicode all modelFilter) {} := by
  unfold submit
  rw [hload]
  refine congrArg (Prog.bind (publishCatalogs cfg all)) (funext fun _ => ?_)
  cases modelFilter with
  | none => rfl
  | some needle => exact if_neg fun h => hne h.2

/-- Only S3 and HuggingFace may fail. -/
def DbUp : Op → Env → World → Prop
  | .db _, e, _ => e.fault = .none
  | _, _, _ => True

instance DbUp.decidable : (op : Op) → (e : Env) → (w : World) → Decidable (DbUp op e w)
  | .db _, e, _ => inferInstanceAs (Decidable (e.fault = .none))
  | .uuid4, _, _ | .s3 _, _, _ | .tf _, _, _ | .workspaceExists _, _, _ | .modelInfo _, _, _
  | .enter .., _, _ | .leave .., _, _ | .now, _, _ | .sleep _, _, _ | .getQuota _, _, _
  | .fetchGpuQuota, _, _ | .updateQuota _, _, _ | .createTask _, _, _ => isTrue trivial

section
variable {e : ModelEntry} {out : Submission} {x : Exc}

theorem query_raises {q : Query} (hD : (query q).Along (S := sig) (served cfg) DbUp ω w)
    (h : (query q).exec (S := sig) (served cfg) ω w = (.error x, w', ω')) : Grown w w' [] := by
  have hf : (ω 0).fault = .none := hD.1
  rw [exec_query] at h
  obtain ⟨ha, hw⟩ := Prod.mk.inj h
  obtain ⟨rfl, -⟩ := Prod.mk.inj hw
  refine .of_same ?_ rfl
  cases htx : q.tx (ω 0).pick (w.clock + (ω 0).elapsed) w.db with
  | error y => exact Query.run_raises htx
  | ok r =>
    simp only [Query.run, Env.guard, hf, htx] at ha
    cases ha

theorem benched_raises
    (h : (BenchService.benched force e).exec (S := sig) (served cfg) ω w = (.error x, w', ω')) :
    Grown w w' [] := by
  unfold BenchService.benched at h
  cases force with
  | true => cases h
  | false =>
    obtain ⟨-, hw⟩ := Prod.mk.inj ((exec_s3 _ _ _).symm.trans h)
    obtain ⟨rfl, -⟩ := Prod.mk.inj hw
    refine .of_same rfl ?_
    simp only [S3Call.run, Env.guard]
    cases (ω 0).fault <;> rfl

theorem checkHfExists_raises {model : String}
    (h : (checkHfExists model).exec (S := sig) (served cfg) ω w = (.error x, w', ω')) :
    Grown w w' [] := by
  have hcall : ∀ {r : Except Exc Bool} {w₁ : World} {ω₁ : Nat → Env},
      (Prog.call (S := sig) (.modelInfo model) Prog.ofExcept : Async Bool).exec (served cfg) ω w =
        (r, w₁, ω₁) → Grown w w₁ [] := by
    intro r w₁ ω₁ hr
    obtain ⟨-, hw⟩ := Prod.mk.inj ((Prog.exec_ofExcept _ _ _).symm.trans hr)
    obtain ⟨rfl, -⟩ := Prod.mk.inj hw
    exact .of_same rfl rfl
  rcases Prog.exec_bind_error h with h | ⟨found, w₁, ω₁, hfound, h⟩
  · exact hcall h
  · split at h <;> cases h
    exact hcall hfound

theorem createRun_raises (hD : (createRun e).Along (S := sig) (served cfg) DbUp ω w)
    (h : (createRun e).exec (S := sig) (served cfg) ω w = (.error x, w', ω')) :
    Grown w w' [] := by
  unfold createRun at hD h
  split at hD
  · rename_i hpos
    rw [if_pos hpos] at h
    -- an id, the time, and the insertion that raised
    obtain ⟨-, -, hD⟩ := hD
    have hlast := query_raises hD h
    exact ⟨hlast.runs, hlast.nodes, hlast.results, hlast.marks⟩
  · rename_i hpos
    rw [if_neg hpos] at h
    cases h
    exact .refl _

theorem submitEntry_raises (hD : (submitEntry force e out).Along (S := sig) (served cfg) DbUp ω w)
    (h : (submitEntry force e out).exec (S := sig) (served cfg) ω w = (.error x, w', ω')) :
    Grown w w' [] := by
  -- the calls before the last leave database and storage alone, and the last creates nothing
  obtain ⟨-, hD⟩ := Prog.along_bind hD
  rcases Prog.exec_bind_error h with h | ⟨b, w₁, ω₁, hb, h⟩
  · exact benched_raises h
  · obtain ⟨-, hdb, hs3⟩ := benched_ok hb
    have hsame : Grown w w₁ [] := .of_same hdb hs3
    have hD := hD _ _ _ hb
    split at h
    · cases h
    · rename_i hmark
      rw [if_neg hmark] at hD
      obtain ⟨hq, hD⟩ := Prog.along_bind hD
      rcases Prog.exec_bind_error h with h | ⟨active, w₂, ω₂, hactive, h⟩
      · exact hsame.trans (query_raises hq h)
      · obtain ⟨htx, hs3'⟩ := query_ok hactive
        rw [Query.tx, hasActiveRun_eq] at htx
        obtain ⟨-, hdb'⟩ := Prod.mk.inj (Except.ok.inj htx)
        have hsame := hsame.trans (.of_same hdb'.symm hs3')
        have hD := hD _ _ _ hactive
        split at h
        · cases h
        · rename_i hact
          rw [if_neg hact] at hD
          obtain ⟨-, hD⟩ := Prog.along_bind hD
          rcases Prog.exec_bind_error h with h | ⟨_, w₃, ω₃, hhf, h⟩
          · exact hsame.trans (checkHfExists_raises h)
          · obtain ⟨hdb₃, hs3₃⟩ := checkHfExists_ok hhf
            have hsame := hsame.trans (.of_same hdb₃ hs3₃)
            obtain ⟨hcreate, -⟩ := Prog.along_bind (hD _ _ _ hhf)
            rcases Prog.exec_bind_error h with h | ⟨run, w₄, ω₄, -, h⟩
            · exact hsame.trans (createRun_raises hcreate h)
            · cases h

end

theorem submitEntries_append {xs ys : List ModelEntry} {out : Submission} :
    submitEntries force (xs ++ ys) out =
      (submitEntries force xs out).bind (submitEntries force ys) := by
  induction xs generalizing out with
  | nil => rfl
  | cons x xs ih =>
    rw [List.cons_append, submitEntries, submitEntries, Prog.bind_eq, Prog.bind_eq, Prog.bind_assoc]
    exact congrArg (Prog.bind _) (funext fun out' => ih)

/-- The submit raises `x` while it handles entry `k`, and leaves `w'`. -/
def StoppedAt (cfg : Config) (force : Bool) (modelFilter : Option String) (ω : Nat → Env)
    (w : World) (all : List ModelEntry) (k : Nat) (x : Exc) (w' : World) : Prop :=
  cfg.loadModels = .ok all ∧ ∃ w₁ ω₁ e out w₂ ω₂ ω',
    (publishCatalogs cfg all).exec (S := sig) (served cfg) ω w = (.ok (), w₁, ω₁) ∧
    (filterEntries cfg.unicode all modelFilter)[k]? = some e ∧
    (submitEntries force ((filterEntries cfg.unicode all modelFilter).take k) {}).exec (S := sig)
      (served cfg) ω₁ w₁ = (.ok out, w₂, ω₂) ∧
    (submitEntry force e out).exec (S := sig) (served cfg) ω₂ w₂ = (.error x, w', ω')

theorem split_at {α : Type} {xs : List α} {k : Nat} {x : α} (h : xs[k]? = some x) :
    xs = xs.take k ++ x :: xs.drop (k + 1) := by
  obtain ⟨hk, hx⟩ := List.getElem?_eq_some_iff.1 h
  rw [← hx, List.getElem_cons_drop hk, List.take_append_drop]

section
variable {modelFilter : Option String} {all : List ModelEntry} {k : Nat} {x : Exc}

theorem StoppedAt.raises (h : StoppedAt cfg force modelFilter ω w all k x w') :
    ∃ ω', (submit cfg force modelFilter).exec (S := sig) (served cfg) ω w = (.error x, w', ω') := by
  obtain ⟨hload, w₁, ω₁, e, out, w₂, ω₂, ω', hcat, he, hpre, hraise⟩ := h
  have hne := List.ne_nil_of_mem (List.mem_of_getElem? he)
  rw [submit_eq hload hne, Prog.exec_bind_of_ok hcat, split_at he, submitEntries_append,
    Prog.exec_bind_of_ok hpre]
  exact ⟨ω', Prog.exec_bind_of_error hraise⟩

theorem StoppedAt.grown (hD : (submit cfg force modelFilter).Along (S := sig) (served cfg) DbUp ω w)
    (h : StoppedAt cfg force modelFilter ω w all k x w') :
    ∃ runs, Grown w w' runs ∧
      List.Forall₂ Made
        (due force w ((filterEntries cfg.unicode all modelFilter).take k)) runs := by
  obtain ⟨hload, w₁, ω₁, e, out, w₂, ω₂, ω', hcat, he, hpre, hraise⟩ := h
  have hne := List.ne_nil_of_mem (List.mem_of_getElem? he)
  obtain ⟨runs, hruns⟩ := submitEntries_ok hpre
  have hruns := hruns.of_grown (publishCatalogs_ok hcat)
  -- the database is up while the entry is handled
  rw [submit_eq hload hne] at hD
  have hloop := (Prog.along_bind hD).2 _ _ _ hcat
  rw [split_at he, submitEntries_append] at hloop
  have hentry := (Prog.along_bind ((Prog.along_bind hloop).2 _ _ _ hpre)).1
  have hgrown := hruns.grown.trans (submitEntry_raises hentry hraise)
  rw [List.append_nil] at hgrown
  exact ⟨runs, hgrown, hruns.made⟩

end

section
variable {entries : List ModelEntry} {runs : List Run}

end

namespace Sample

end Sample

end GrillPlatform
