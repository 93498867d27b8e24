import GrillPlatform.Submission

/-! Whether a destroy that returns has removed the server. `release_node` takes it for one that has,
and marks the node down. -/

namespace GrillPlatform
open Coroutine
variable {cfg : Config} {r : RunId} {w w' : World} {ω ω' : Nat → Env}

/-- A server of the run can be destroyed: its workspace is there, and its state object. -/
def Cloud.Held (r : RunId) (c : Cloud) : Prop :=
  c.server r = true → c.workspace r = true ∧ c.remoteState r = true

/-- What `destroy_node` and `release_node` promise of the run, from here. -/
structure Confirms (cfg : Config) (r : RunId) (w : World) : Prop where
  destroyed : ∀ ω w' ω', (destroyNode r).exec (S := sig) (served cfg) ω w = (.ok (), w', ω') →
    w'.cloud.server r = false
  released : ∀ ω out w' ω', (releaseNode r).exec (S := sig) (served cfg) ω w = (out, w', ω') →
    w'.cloud.server r = true → w'.db = w.db

theorem exec_tf (cfg : Config) (q : TfCall) (ω : Nat → Env) (w : World) :
    (tf q).exec (S := sig) (served cfg) ω w = ((w.cloud.run cfg.readFile (ω 0) q).1,
      { w with clock := w.clock + (ω 0).elapsed, cloud := (w.cloud.run cfg.readFile (ω 0) q).2 },
      fun k => ω (k + 1)) :=
  Prog.exec_ofExcept _ _ _

/-- A `terraform destroy` brings no server and touches neither workspace nor state object; a
successful one removes the server that the object records. -/
theorem Cloud.run_destroy (readFile : String → Option String) (e : Env) (c : Cloud) :
    let out := c.run readFile e (.destroy r)
    out.2.workspace r = c.workspace r ∧ out.2.remoteState r = c.remoteState r ∧
      (out.2.server r = true → c.server r = true) ∧
      (out.1 = .ok () → out.2.server r = (c.server r && !c.remoteState r)) := by
  simp only [run, Env.guard, terraform]
  cases e.fault <;> cases hw : c.workspace r <;> cases he : e.tfOk <;>
    simp_all [setServer]

/-- What the calls of a destroy leave: no new server, the database as it was, and a server that is
left can still be destroyed. -/
structure Destroying (r : RunId) (w w' : World) : Prop where
  db : w'.db = w.db
  server : w'.cloud.server r = true → w.cloud.server r = true
  held : w.cloud.Held r → w'.cloud.Held r

theorem Destroying.trans {w'' : World} (h : Destroying r w w') (h' : Destroying r w' w'') :
    Destroying r w w'' :=
  ⟨h'.db.trans h.db, fun hs => h.server (h'.server hs), fun hh => h'.held (h.held hh)⟩

theorem Destroying.of_cloud (hdb : w'.db = w.db) (hc : w'.cloud = w.cloud) : Destroying r w w' :=
  ⟨hdb, fun h => hc ▸ h, fun h => hc ▸ h⟩

theorem Destroying.of_gone (hdb : w'.db = w.db) (hs : w'.cloud.server r = w.cloud.server r)
    (hg : w.cloud.server r = false) : Destroying r w w' :=
  ⟨hdb, fun h => hs ▸ h, fun _ h => by rw [hs, hg] at h; cases h⟩

section
variable {out : Except Exc Unit}

theorem destroy_exec (h : (tf (.destroy r)).exec (S := sig) (served cfg) ω w = (out, w', ω')) :
    Destroying r w w' ∧ (w.cloud.Held r → out = .ok () → w'.cloud.server r = false) := by
  obtain ⟨ha, hw⟩ := Prod.mk.inj ((exec_tf _ _ _ _).symm.trans h)
  obtain ⟨rfl, -⟩ := Prod.mk.inj hw
  obtain ⟨hworkspace, hstate, hserver, hok⟩ :=
    Cloud.run_destroy (r := r) cfg.readFile (ω 0) w.cloud
  refine ⟨⟨rfl, hserver, fun hh hs => ?_⟩, fun hh ho => ?_⟩
  · show (w.cloud.run cfg.readFile (ω 0) (.destroy r)).2.workspace r = true ∧ _
    rw [hworkspace, hstate]
    exact hh (hserver hs)
  · show (w.cloud.run cfg.readFile (ω 0) (.destroy r)).2.server r = false
    rw [hok (ha.trans ho)]
    cases hs : w.cloud.server r with
    | false => rfl
    | true => rw [(hh hs).2]; rfl

theorem deleteRemoteState_exec (hg : w.cloud.server r = false)
    (h : (tf (.deleteRemoteState r)).exec (S := sig) (served cfg) ω w = (out, w', ω')) :
    Destroying r w w' := by
  obtain ⟨-, hw⟩ := Prod.mk.inj ((exec_tf _ _ _ _).symm.trans h)
  obtain ⟨rfl, -⟩ := Prod.mk.inj hw
  refine .of_gone rfl ?_ hg
  simp only [Cloud.run]
  split <;> rfl

theorem rmtree_exec (hg : w.cloud.server r = false)
    (h : (tf (.rmtree r)).exec (S := sig) (served cfg) ω w = (out, w', ω')) :
    Destroying r w w' := by
  obtain ⟨-, hw⟩ := Prod.mk.inj ((exec_tf _ _ _ _).symm.trans h)
  obtain ⟨rfl, -⟩ := Prod.mk.inj hw
  exact .of_gone rfl (Env.guard_state (fun c : Cloud => c.server r = w.cloud.server r) rfl rfl) hg

theorem Destroying.gone (h : Destroying r w w') (hg : w.cloud.server r = false) :
    w'.cloud.server r = false := by
  cases hs : w'.cloud.server r with
  | false => rfl
  | true => exact (h.server hs).symm.trans hg

theorem destroySteps_exec
    (h : (destroySteps r).exec (S := sig) (served cfg) ω w = (out, w', ω'))
    (hh : w.cloud.Held r) :
    Destroying r w w' ∧ (out = .ok () → w'.cloud.server r = false) := by
  rcases Prog.exec_bind_cases h with ⟨x, hb, -⟩ | ⟨b, w₁, ω₁, hb, h₁⟩
  · cases hb
  cases hb
  split at h₁
  · -- no workspace, so no server
    rename_i hmissing
    cases h₁
    refine ⟨.of_cloud rfl rfl, fun _ => Bool.eq_false_iff.2 fun hs => ?_⟩
    have hworkspace : w.cloud.workspace r = false := Bool.eq_false_of_not_eq_true' hmissing
    cases hworkspace.symm.trans (hh hs).1
  · rcases Prog.exec_bind_cases h₁ with ⟨x, hd, rfl⟩ | ⟨_, w₂, ω₂, hd, h₂⟩
    · have hfirst := (destroy_exec hd).1
      exact ⟨⟨hfirst.db, hfirst.server, hfirst.held⟩, nofun⟩
    · obtain ⟨hfirst, hgone⟩ := destroy_exec hd
      have hg : w₂.cloud.server r = false := hgone hh rfl
      have hdestroyed : Destroying r w w₂ := ⟨hfirst.db, hfirst.server, hfirst.held⟩
      rcases Prog.exec_bind_cases h₂ with ⟨x, hstate, rfl⟩ | ⟨_, w₃, ω₃, hstate, hrm⟩
      · exact ⟨hdestroyed.trans (deleteRemoteState_exec hg hstate), nofun⟩
      · have hsecond := deleteRemoteState_exec hg hstate
        have hthird := rmtree_exec (hsecond.gone hg) hrm
        exact ⟨hdestroyed.trans (hsecond.trans hthird), fun _ => hthird.gone (hsecond.gone hg)⟩

theorem during_exec {α : Type} {job : TfJob} {body : Async α} {out : Except Exc α}
    (h : (during job r body).exec (S := sig) (served cfg) ω w = (out, w', ω')) :
    ∃ w₁ w₂ ω₁ ω₂, w₁.db = w.db ∧ w₁.cloud = w.cloud ∧
      body.exec (S := sig) (served cfg) ω₁ w₁ = (out, w₂, ω₂) ∧ w'.db = w₂.db ∧
      w'.cloud = w₂.cloud := by
  rcases Prog.exec_bind_cases h with ⟨x, he, -⟩ | ⟨_, w₁, ω₁, he, h₁⟩
  · cases he
  cases he
  rcases Prog.exec_bind_cases h₁ with ⟨x, hb, -⟩ | ⟨result, w₂, ω₂, hb, h₂⟩
  · cases (Prog.exec_attempt ..).symm.trans hb
  obtain ⟨hresult, hw₂⟩ := Prod.mk.inj ((Prog.exec_attempt ..).symm.trans hb)
  rcases Prog.exec_bind_cases h₂ with ⟨x, hl, -⟩ | ⟨_, w₃, ω₃, hl, h₃⟩
  · cases hl
  cases hl
  cases (Prog.exec_ofExcept ..).symm.trans h₃
  exact ⟨(served cfg (.enter job r) (ω 0) w).2, w₂, _, ω₂, rfl, rfl,
    Prod.ext (Except.ok.inj hresult) hw₂, rfl, rfl⟩

theorem destroyNode_exec
    (h : (destroyNode r).exec (S := sig) (served cfg) ω w = (out, w', ω'))
    (hh : w.cloud.Held r) :
    Destroying r w w' ∧ (out = .ok () → w'.cloud.server r = false) := by
  obtain ⟨w₁, w₂, ω₁, ω₂, hdb₁, hcloud₁, hsteps, hdb₂, hcloud₂⟩ := during_exec h
  obtain ⟨hd, hgone⟩ := destroySteps_exec hsteps (hcloud₁ ▸ hh)
  exact ⟨(Destroying.of_cloud hdb₁ hcloud₁).trans (hd.trans (.of_cloud hdb₂ hcloud₂)),
    fun ho => hcloud₂ ▸ hgone ho⟩

end

/-- What the calls of a release leave: as long as there is a server, nothing is written to the
database, and it can still be destroyed. -/
structure Releasing (r : RunId) (w w' : World) : Prop where
  server : w'.cloud.server r = true → w.cloud.server r = true ∧ w'.db = w.db
  held : w'.cloud.Held r

theorem Releasing.trans {w'' : World} (h : Releasing r w w') (h' : Releasing r w' w'') :
    Releasing r w w'' := by
  refine ⟨fun hs => ?_, h'.held⟩
  obtain ⟨hs', hdb'⟩ := h'.server hs
  obtain ⟨hs'', hdb⟩ := h.server hs'
  exact ⟨hs'', hdb'.trans hdb⟩

theorem Destroying.releasing (h : Destroying r w w') (hh : w.cloud.Held r) : Releasing r w w' :=
  ⟨fun hs => ⟨h.server hs, h.db⟩, h.held hh⟩

theorem query_cloud {q : Query} {out : Except Exc q.Resp}
    (h : (query q).exec (S := sig) (served cfg) ω w = (out, w', ω')) : w'.cloud = w.cloud := by
  obtain ⟨-, hw⟩ := Prod.mk.inj ((exec_query ..).symm.trans h)
  obtain ⟨rfl, -⟩ := Prod.mk.inj hw
  rfl

theorem Releasing.of_same (hdb : w'.db = w.db) (hc : w'.cloud = w.cloud) (hh : w.cloud.Held r) :
    Releasing r w w' :=
  (Destroying.of_cloud hdb hc).releasing hh

theorem releaseSteps_exec {out : Except Exc Bool}
    (h : (do destroyNode r
             query (.setDownByRun r)
             return true : Async Bool).exec (S := sig) (served cfg) ω w = (out, w', ω'))
    (hh : w.cloud.Held r) : Releasing r w w' := by
  rcases Prog.exec_bind_cases h with ⟨x, hd, -⟩ | ⟨_, w₁, ω₁, hd, h₁⟩
  · exact (destroyNode_exec hd hh).1.releasing hh
  · obtain ⟨hdestroy, hgone⟩ := destroyNode_exec hd hh
    have hg : w₁.cloud.server r = false := hgone rfl
    -- the row is written with the server gone
    have hdown : ∀ w₂ : World, w₂.cloud = w₁.cloud → Releasing r w₁ w₂ := fun w₂ hc =>
      ⟨fun hs => (Bool.false_ne_true ((hc ▸ hg : w₂.cloud.server r = false).symm.trans hs)).elim,
        hc ▸ hdestroy.held hh⟩
    apply (hdestroy.releasing hh).trans
    rcases Prog.exec_bind_cases h₁ with ⟨x, hq, -⟩ | ⟨_, w₂, ω₂, hq, h₂⟩
    · exact hdown _ (query_cloud hq)
    · cases h₂
      exact hdown _ (query_cloud hq)

theorem releaseAttempt_exec {out : Except Exc Bool}
    (h : (releaseAttempt r).exec (S := sig) (served cfg) ω w = (out, w', ω'))
    (hh : w.cloud.Held r) : Releasing r w w' := by
  rcases Prog.exec_tryCatch_cases h with ⟨a, hsteps, -⟩ | ⟨x, w₁, ω₁, hsteps, hc⟩
  · exact releaseSteps_exec hsteps hh
  · cases hc
    exact releaseSteps_exec hsteps hh

theorem releaseFrom_exec {attempts : List Nat} {out : Except Exc Unit}
    (h : (releaseFrom r attempts).exec (S := sig) (served cfg) ω w = (out, w', ω'))
    (hh : w.cloud.Held r) : Releasing r w w' := by
  induction attempts generalizing ω w with
  | nil =>
    cases h
    exact .of_same rfl rfl hh
  | cons attempt rest ih =>
    rcases Prog.exec_bind_cases h with ⟨x, ha, -⟩ | ⟨down, w₁, ω₁, ha, h₁⟩
    · exact releaseAttempt_exec ha hh
    · have hfirst := releaseAttempt_exec ha hh
      apply hfirst.trans
      split at h₁
      · cases h₁
        exact .of_same rfl rfl hfirst.held
      · split at h₁
        · -- the sleep between two attempts
          rcases Prog.exec_bind_cases h₁ with ⟨x, hs, -⟩ | ⟨_, w₂, ω₂, hs, h₂⟩
          · cases hs
          · cases hs
            have hslept : Releasing r w₁ (served cfg (.sleep (attempt * 30)) (ω₁ 0) w₁).2 :=
              .of_same rfl rfl hfirst.held
            exact hslept.trans (ih h₂ hslept.held)
        · exact ih h₁ hfirst.held

/-! ## Where the destroy is confirmed -/

/-- Without a workspace nothing is done; without a state object terraform finds nothing to
destroy. Neither raises. -/
theorem destroySteps_unheld (cfg : Config) (hh : ¬ w.cloud.Held r) :
    ∃ w' ω', (destroySteps r).exec (S := sig) (served cfg) (fun _ => {}) w = (.ok (), w', ω') ∧
      w'.cloud.server r = true := by
  obtain ⟨hs, hmissing⟩ := Classical.not_imp.1 hh
  obtain ⟨w₁, hexists, hc⟩ : ∃ w₁, (Prog.emit (S := sig) (.workspaceExists r) : Async Bool).exec
      (served cfg) (fun _ => {}) w = (.ok (w.cloud.workspace r), w₁, fun _ => {}) ∧
      w₁.cloud = w.cloud := ⟨_, rfl, rfl⟩
  rw [← hc] at hs hmissing hexists
  cases hw : w₁.cloud.workspace r with
  | false => exact ⟨w₁, _, Prog.exec_bind_of_ok (hw ▸ hexists), hs⟩
  | true =>
    have hm : w₁.cloud.remoteState r = false := Bool.eq_false_iff.2 fun hm => hmissing ⟨hw, hm⟩
    have hnone :
        w₁.cloud.run cfg.readFile {} (.destroy r) = (.ok (), w₁.cloud.setServer r true) := by
      simp [Cloud.run, Env.guard, Cloud.terraform, hw, hm, hs]
    have hdestroy := exec_tf cfg (.destroy r) (fun _ => {}) w₁
    rw [hnone] at hdestroy
    have hsteps : (destroySteps r).exec (S := sig) (served cfg) (fun _ => {}) w =
        (do tf (.destroy r)
            tf (.deleteRemoteState r)
            tf (.rmtree r) : Async Unit).exec (S := sig) (served cfg) (fun _ => {}) w₁ :=
      Prog.exec_bind_of_ok (hw ▸ hexists)
    refine ⟨_, _, hsteps.trans ((Prog.exec_bind_of_ok hdestroy).trans
      ((Prog.exec_bind_of_ok (exec_tf _ _ _ _)).trans (exec_tf _ _ _ _))), ?_⟩
    show Function.update w₁.cloud.server r true r = true
    exact Function.update_self ..

theorem destroyNode_unheld (cfg : Config) (hh : ¬ w.cloud.Held r) :
    ∃ w' ω', (destroyNode r).exec (S := sig) (served cfg) (fun _ => {}) w = (.ok (), w', ω') ∧
      w'.cloud.server r = true := by
  obtain ⟨w₁, hexists, hc⟩ : ∃ w₁, (Prog.emit (S := sig) (.enter .destroy r) : Async Unit).exec
      (served cfg) (fun _ => {}) w = (.ok (), w₁, fun _ => {}) ∧ w₁.cloud = w.cloud :=
    ⟨_, rfl, rfl⟩
  rw [← hc] at hh
  obtain ⟨w₂, ω₂, hsteps, hs⟩ := destroySteps_unheld cfg hh
  have hattempt := Prog.exec_attempt (h := served cfg) (destroySteps r) (fun _ => {}) w₁
  rw [hsteps] at hattempt
  exact ⟨_, _, (Prog.exec_bind_of_ok hexists).trans (Prog.exec_bind_of_ok hattempt), hs⟩

theorem confirms_iff : Confirms cfg r w ↔ w.cloud.Held r := by
  constructor
  · intro h
    by_contra hh
    obtain ⟨w', ω', hreturns, hs⟩ := destroyNode_unheld cfg hh
    cases (h.destroyed _ _ _ hreturns).symm.trans hs
  · exact fun hh => ⟨fun ω w' ω' h => (destroyNode_exec h hh).2 rfl,
      fun ω out w' ω' h hs => ((releaseFrom_exec h hh).server hs).2⟩

/-- The container is replaced while the run has its node. -/
def Sample.replaced : List (Step Sample.config) :=
  Sample.running 7 ++ [.crash { lostWorkspace := fun _ => true }]

/-- `release_node` finds no workspace and marks the node down, with the server still there. -/
theorem not_confirms : ¬ ∀ (p : System Sample.config) (r : RunId),
    System.Reachable Sample.start p → Confirms Sample.config r p.world := by
  intro h
  have hc := h (Sample.start.play Sample.replaced) 7 (Pool.reach_play _ _ (by decide))
  have hkept := congrArg (Db.nodesOf · 7) (hc.released (fun _ => {}) _ _ _ rfl (by decide))
  exact absurd hkept (by decide)

end GrillPlatform
