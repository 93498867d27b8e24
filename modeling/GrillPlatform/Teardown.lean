import GrillPlatform.ConfirmedDestroy

/-! The end of a cycle. Whatever the orchestrator was doing when its machine went away, every server
is recorded in a state object of the bucket, and the reaper destroys what the bucket records. -/

namespace GrillPlatform
open Coroutine
variable {cfg : Config}

def Outside : Op → Prop
  | .tf (.destroy _) | .tf (.deleteRemoteState _) | .tf (.rmtree _) | .enter .destroy _
  | .leave .destroy _ | .workspaceExists _ => False
  | _ => True

theorem provisionSteps_outside (cfg : Config) (run : Run) :
    (provisionSteps cfg run).Calls (S := sig) Outside := by
  refine Prog.calls_bind (calls_tf trivial) fun _ => Prog.calls_bind (calls_tf trivial)
    fun scenario => ?_
  cases scenario with
  | none => trivial
  | some scenario =>
    exact Prog.calls_bind (calls_tf trivial) fun _ => Prog.calls_bind (calls_tf trivial) fun _ =>
      Prog.calls_bind (calls_tf trivial) fun _ => calls_tf trivial

section
variable {Γ : Type} {P : Protocol sig Γ} {I : Γ → Prop}

theorem body_maintains (hout : ∀ γ op, I γ → Outside op → P.pre γ op ∧ ∀ a, I (P.post γ op a))
    (hdestroy : ∀ r, (destroyNode r).Maintains P I) (n : TaskName) :
    (n.body cfg).Maintains P I := by
  have hfree : ∀ {α : Type} {p : Async α}, p.Calls (S := sig) Outside → p.Maintains P I :=
    fun hp => hp.maintains hout
  have hquery : ∀ q : Query, (query q).Maintains P I := fun q => hfree (calls_query trivial)
  have hfailed : ∀ r reason, (setFailed r reason).Maintains P I := fun r reason =>
    hfree (setFailed_calls trivial fun _ _ => trivial)
  have hfail : ∀ r reason, (GrillPlatform.fail r reason).Maintains P I := fun r reason =>
    Prog.maintains_bind (hquery _) fun _ => hfailed r reason
  have hattempt : ∀ r, (releaseAttempt r).Maintains P I := fun r =>
    Prog.maintains_tryCatch (Prog.maintains_bind (hdestroy r) fun _ =>
      Prog.maintains_bind (hquery _) fun _ => Prog.maintains_pure true) fun _ =>
        Prog.maintains_pure false
  have hrelease : ∀ r attempts, (releaseFrom r attempts).Maintains P I := by
    intro r attempts
    induction attempts with
    | nil => exact Prog.maintains_pure ()
    | cons attempt rest ih =>
      refine Prog.maintains_bind (hattempt r) fun done => ?_
      split
      · exact Prog.maintains_pure ()
      · split
        · exact Prog.maintains_bind (hfree (calls_emit trivial)) fun _ => ih
        · exact ih
  have hrequeue : ∀ r reason, (requeueOrGiveUp cfg r reason).Maintains P I := by
    intro r reason
    refine Prog.maintains_bind (Prog.maintains_tryCatch (hdestroy r) fun _ =>
      Prog.maintains_pure ()) fun _ => Prog.maintains_bind (hquery _) fun attempt =>
        Prog.maintains_bind (hquery _) fun _ => ?_
    cases attempt with
    | none => exact hfailed r _
    | some _ => exact Prog.maintains_pure ()
  cases n with
  | pollingLoop =>
    refine hfree (pollingLoop_calls.mono fun op h => ?_)
    unfold BootOp at h
    split at h <;> first | exact h.elim | trivial
  | pollTick =>
    refine hfree ((pollTick_calls cfg).mono fun op h => ?_)
    unfold TickOp at h
    split at h <;> first | exact h.elim | trivial
  | handleQueuedRun r g =>
    refine Prog.maintains_tryCatch (Prog.maintains_bind (hquery _) fun _ =>
      Prog.maintains_bind (hquery _) fun found => ?_) fun _ => hfail r _
    cases found with
    | none => exact hquery _
    | some run =>
      have hprovision : (provisionNode cfg run.1).Calls (S := sig) Outside :=
        calls_during trivial trivial (provisionSteps_outside cfg run.1)
      refine Prog.maintains_bind (Prog.maintains_attempt (hfree hprovision)) fun out => ?_
      cases out with
      | ok node =>
        exact Prog.maintains_bind (hquery _) fun _ =>
          Prog.maintains_bind (hfree (calls_emit trivial)) fun _ =>
            Prog.maintains_bind (hquery _) fun _ => Prog.maintains_pure ()
      | error exc =>
        show (onProvisionError cfg r exc).Maintains P I
        unfold onProvisionError
        split
        · exact hrequeue r _
        · split <;> exact hfail r _
  | releaseNode r | abortStuckProvisioning r => exact hrelease r _
  | recoverOrphanedProvisioningRun r =>
    refine Prog.maintains_bind (hrelease r _) fun _ => Prog.maintains_bind (hquery _)
      fun attempt => ?_
    cases attempt with
    | none => exact hfailed r _
    | some _ => exact Prog.maintains_pure ()
  | abortStuckRunning r lastPhase =>
    exact Prog.maintains_bind (hrelease r _) fun _ => hfailed r _
  | request req =>
    refine hfree ((request_calls cfg req).mono fun op h => ?_)
    unfold RequestOp at h
    split at h <;> first | exact h.elim | trivial

end

/-- Every server is in the state object of its run. -/
def Cloud.Recorded (c : Cloud) : Prop := ∀ r, c.server r = true → c.remoteState r = true

/-- After a destroy that went through, the state object is removed, and at no other time. -/
def removes : Option RunId → Op → Prop
  | none, .tf (.deleteRemoteState _) => False
  | none, _ => True
  | some r, op => op = .tf (.deleteRemoteState r)

def removal : Protocol sig (Option RunId) where
  pre := removes
  post
    | _, .tf (.destroy r), .ok _ => some r
    | _, _, _ => none

theorem removal_outside (γ : Option RunId) (op : Op) (hγ : γ = none) (h : Outside op) :
    removal.pre γ op ∧ ∀ a, removal.post γ op a = none := by
  subst hγ
  cases op with
  | tf q => cases q <;> first | exact h.elim | exact ⟨trivial, fun _ => rfl⟩
  | _ => exact ⟨trivial, fun _ => rfl⟩

theorem destroyNode_removal (r : RunId) : (destroyNode r).Maintains removal fun γ => γ = none := by
  have hsteps : (destroySteps r).Maintains removal fun γ => γ = none := by
    rintro γ rfl
    refine ⟨trivial, fun staged => ?_⟩
    cases staged with
    | false => rfl
    | true =>
      refine ⟨trivial, fun destroyed => ?_⟩
      cases destroyed with
      | error x => rfl
      | ok _ =>
        refine ⟨rfl, fun deleted => ?_⟩
        cases deleted with
        | error x => rfl
        | ok _ => exact ⟨trivial, fun removed => (Prog.follows_ofExcept removed).2 rfl⟩
  have hemit : ∀ op, removal.pre none op → (∀ a, removal.post none op a = none) →
      (Prog.emit (S := sig) (X := Exc) op).Maintains removal fun γ => γ = none := by
    rintro op hpre hpost γ rfl
    exact ⟨hpre, hpost⟩
  exact Prog.maintains_bind (hemit _ trivial fun _ => rfl) fun _ =>
    Prog.maintains_bind (Prog.maintains_attempt hsteps) fun out =>
      Prog.maintains_bind (hemit _ trivial fun _ => rfl) fun _ => fun γ hγ =>
        (Prog.follows_ofExcept out).2 hγ

theorem body_removal (cfg : Config) (n : TaskName) :
    (n.body cfg).Follows removal (fun _ _ => True) none :=
  (body_maintains removal_outside destroyNode_removal n).follows rfl fun _ _ _ => trivial

def deleting (t : Task (orchestrator cfg)) : Option RunId :=
  match t.prog with
  | .call (.tf (.deleteRemoteState r)) _ => some r
  | _ => none

def applying : Option (Task (orchestrator cfg)) → Option RunId
  | some ⟨_, .call (.tf (.apply r)) _⟩ => some r
  | _ => none

/-- No server is created for a run whose state object is about to be removed, and terraform, when it
is stopped with the process, leaves no server that its state object does not record. -/
def Clear (p : System cfg) : Step cfg → Prop
  | .run i _ => ∀ r ∈ applying p.tasks[i]?, ∀ t ∈ p.tasks, deleting t ≠ some r
  | .crash e => ∀ b ∈ p.world.busy, e.serverAfterCrash b.runId = true →
      p.world.cloud.remoteState b.runId = true ∨ e.recordedAfterCrash b.runId = true
  | .arrive _ => True

instance Clear.decidable (p : System cfg) : (l : Step cfg) → Decidable (Clear p l)
  | .run i _ =>
    match h : applying p.tasks[i]? with
    | none => isTrue fun r hr => by rw [h] at hr; cases hr
    | some r => decidable_of_iff (∀ t ∈ p.tasks, deleting t ≠ some r)
        ⟨fun hd r' hr' => by rw [h] at hr'; cases hr'; exact hd, fun hc => hc r h⟩
  | .crash e => inferInstanceAs (Decidable (∀ b ∈ p.world.busy, _))
  | .arrive _ => isTrue trivial

namespace Cloud
variable {c : Cloud} {readFile : String → Option String} {e : Env} {q : TfCall} {r : RunId}

theorem remoteState_set {b : Bool} {r' : RunId} (h : c.remoteState r = true)
    (hb : r' = r → b = true) : (c.setRemoteState r' b).remoteState r = true := by
  by_cases hr : r = r'
  · subst hr
    simpa [setRemoteState] using hb rfl
  · simpa [setRemoteState, Function.update_of_ne hr] using h

theorem remoteState_run (hq : q ≠ .deleteRemoteState r) (h : c.remoteState r = true) :
    (c.run readFile e q).2.remoteState r = true := by
  have hkept : ∀ {α : Type} {r' : RunId} {ok : Except Exc α × Cloud} {failed : Cloud},
      ok.2.remoteState r = true → failed.remoteState r = true →
      (e.guard c (c.terraform r' e ok failed)).2.remoteState r = true := fun hok hf =>
    Env.guard_state (fun c' : Cloud => c'.remoteState r = true) h
      (terraform_state (fun c' : Cloud => c'.remoteState r = true) h hok hf)
  cases q with
  | apply r' =>
    refine hkept (remoteState_set h fun _ => rfl) (remoteState_set h ?_)
    rintro rfl
    rw [h, Bool.true_or]
  | destroy r' => exact hkept h h
  | deleteRemoteState r' =>
    have hne : r' ≠ r := fun hr => hq (congrArg _ hr)
    simp only [run]
    split
    · exact h
    · exact remoteState_set h fun hr => absurd hr hne
  | init r' => exact hkept h h
  | output r' =>
    refine hkept ?_ h
    split <;> exact h
  | _ => exact Env.guard_state (fun c' : Cloud => c'.remoteState r = true) h h

theorem recorded_run (h : c.Recorded) (hq : ∀ r, q = .deleteRemoteState r → c.server r = false) :
    (c.run readFile e q).2.Recorded := by
  intro r hs
  by_cases ha : q = .apply r
  · subst ha
    refine Env.guard_state (fun c' : Cloud => c'.server r = true → c'.remoteState r = true) (h r)
      (terraform_state (fun c' : Cloud => c'.server r = true → c'.remoteState r = true) (h r)
        (fun _ => Function.update_self ..) fun hs => ?_) hs
    have hleft : Function.update c.server r e.serverLeft r = true := hs
    rw [Function.update_self] at hleft
    show Function.update c.remoteState r (c.remoteState r || e.serverLeft) r = true
    rw [Function.update_self, hleft, Bool.or_true]
  · have hold := server_run ha hs
    refine remoteState_run ?_ (h r hold)
    rintro rfl
    rw [hq r rfl] at hold
    cases hold

end Cloud

/-- Every server is recorded, and a run whose state object is about to be removed has none. -/
structure Reapable (p : System cfg) (g : Nat → Option RunId) : Prop where
  recorded : p.world.cloud.Recorded
  gone : ∀ (i : Nat) (t : Task (orchestrator cfg)) r, p.tasks[i]? = some t → g i = some r →
    deleting t = some r → p.world.cloud.server r = false

section
variable {p : System cfg} {g : Nat → Option RunId} {i : Nat} {n : (orchestrator cfg).Name}
  {op : sig.Op} {next : sig.Resp op → Prog sig Exc Unit} {e : (orchestrator cfg).Env}

variable (p i n op next e) in
theorem cloud_after : (p.after i n op next e).world.cloud = p.world.cloud ∨
    ∃ q, (op : Op) = .tf q ∧
      (p.after i n op next e).world.cloud = (p.world.cloud.run cfg.readFile e q).2 := by
  cases op with
  | tf q => exact .inr ⟨q, rfl, rfl⟩
  | _ => exact .inl rfl

theorem recorded_after (hJ : Reapable p g) (hi : p.tasks[i]? = some ⟨n, .call op next⟩)
    (hpre : removes (g i) op) : (p.after i n op next e).world.cloud.Recorded := by
  rcases cloud_after p i n op next e with hc | ⟨q, rfl, hc⟩
  · rw [hc]
    exact hJ.recorded
  · rw [hc]
    refine Cloud.recorded_run hJ.recorded ?_
    rintro r rfl
    refine hJ.gone i _ r hi ?_ rfl
    cases hg : g i with
    | none =>
      rw [hg] at hpre
      exact hpre.elim
    | some r' =>
      rw [hg] at hpre
      cases hpre
      rfl

theorem server_after {r : RunId} (h : (p.after i n op next e).world.cloud.server r = true) :
    p.world.cloud.server r = true ∨ (op : Op) = .tf (.apply r) := by
  rcases cloud_after p i n op next e with hc | ⟨q, rfl, hc⟩
  · rw [hc] at h
    exact .inl h
  · rw [hc] at h
    by_cases hq : q = .apply r
    · exact .inr (by rw [hq])
    · exact .inl (Cloud.server_run hq h)

theorem gone_after {γ : Option RunId} {r : RunId} (hr : p.world.cloud.Recorded)
    (h : removal.post γ op ((orchestrator cfg).handle i n op e p.world).1 = some r) :
    (p.after i n op next e).world.cloud.server r = false := by
  cases op with
  | tf q =>
    cases q with
    | destroy r' =>
      have hrun := Cloud.run_destroy (r := r') cfg.readFile e p.world.cloud
      match ha : (p.world.cloud.run cfg.readFile e (.destroy r')).1 with
      | .error x =>
        rw [show ((orchestrator cfg).handle i n (.tf (.destroy r')) e p.world).1 = _ from ha] at h
        cases h
      | .ok _ =>
        rw [show ((orchestrator cfg).handle i n (.tf (.destroy r')) e p.world).1 = _ from ha] at h
        cases h
        show (p.world.cloud.run cfg.readFile e (.destroy r)).2.server r = false
        rw [hrun.2.2.2 ha]
        cases hs : p.world.cloud.server r with
        | false => rfl
        | true => rw [hr r hs]; rfl
    | _ => cases h
  | _ => cases h

theorem reapable_after (hJ : Reapable p g) (hi : p.tasks[i]? = some ⟨n, .call op next⟩)
    (hpre : removal.pre (g i) op) (hC : Clear p (.run i e)) :
    Reapable (p.after i n op next e) (Pool.ghost removal (fun _ => none) g i op
      ((orchestrator cfg).handle i n op e p.world).1 p.tasks.length
      ((orchestrator cfg).handle i n op e p.world).2.2) := by
  refine ⟨recorded_after hJ hi hpre, fun j t r hj hg hd => ?_⟩
  rcases Pool.getElem?_after hj with ⟨rfl, rfl⟩ | ⟨hne, hj'⟩ | ⟨rfl, m, hm, rfl⟩
  -- the caller has just destroyed the server, which was recorded
  · rw [Pool.ghost_self] at hg
    exact gone_after hJ.recorded hg
  · rw [Pool.ghost_other hne (Nat.ne_of_lt (Pool.lt_of_getElem? hj'))] at hg
    rw [Bool.eq_false_iff]
    intro hs
    rcases server_after hs with hs | rfl
    · cases (hJ.gone j t r hj' hg hd).symm.trans hs
    · refine hC r ?_ t (List.mem_of_getElem? hj') hd
      rw [hi]
      rfl
  · rw [hm, Pool.ghost_new (Pool.lt_of_getElem? hi)] at hg
    cases hg

end

theorem recorded_reboot {p : System cfg} {e : Env} {r : RunId} (hr : p.world.cloud.Recorded)
    (hC : Clear p (.crash e)) (hs : (p.world.reboot cfg e).cloud.server r = true) :
    (p.world.reboot cfg e).cloud.remoteState r = true := by
  have hserver : (if p.world.busy.any (·.runId = r) then e.serverAfterCrash r
      else p.world.cloud.server r) = true := hs
  show (p.world.cloud.remoteState r ||
    p.world.busy.any (·.runId = r) && e.recordedAfterCrash r) = true
  split at hserver
  · rename_i hbusy
    obtain ⟨b, hb, hrun⟩ := List.any_eq_true.1 hbusy
    obtain rfl := of_decide_eq_true hrun
    rw [hbusy, Bool.true_and, Bool.or_eq_true]
    exact hC b hb hserver
  · rw [hr r hserver, Bool.true_or]

theorem recorded_of_reach {w : World} {p : System cfg} (hw : w.cloud.Recorded)
    (h : Pool.Reach Clear (System.start cfg w) p) : p.world.cloud.Recorded := by
  have hboot : ∀ w : World, w.cloud.Recorded →
      Reapable (Pool.boot (M := orchestrator cfg) w) fun _ => none := fun w hw => ⟨hw, nofun⟩
  obtain ⟨g, -, hJ⟩ := h.tracked removal (fun _ => none) (body_removal cfg) Reapable
    ⟨_, Pool.Tracked.boot _ (body_removal cfg), hboot _ hw⟩
    (fun p g i e n op next _ hJ hi hpre hC => reapable_after hJ hi hpre hC)
    (fun p g n hJ _ _ => by
      refine ⟨hJ.recorded, fun j t r hj hg hd => ?_⟩
      rcases Pool.getElem?_arrive hj with hj | ⟨rfl, rfl⟩
      · rw [Function.update_of_ne (Nat.ne_of_lt (Pool.lt_of_getElem? hj))] at hg
        exact hJ.gone j t r hj hg hd
      · rw [Function.update_self] at hg
        cases hg)
    fun p g e hJ hC => hboot _ fun r hs => recorded_reboot hJ.recorded hC hs
  exact hJ.recorded

/-! ## The reaper -/

/-- How the commands for one key end. -/
structure Reaping where
  init : Bool := true
  destroy : Bool := true
  serverLeft : Bool := false
  remove : Bool := true

/-- `terraform init`, `terraform destroy` and `aws s3 rm` for the key of a run. -/
def reapKey (e : Reaping) (r : RunId) (c : Cloud) : Bool × Cloud :=
  if !e.init then (false, c)
  else if !e.destroy then (false, c.setServer r (c.server r && e.serverLeft))
  else
    let destroyed := c.setServer r (c.server r && !c.remoteState r)
    if !e.remove then (false, destroyed) else (true, destroyed.setRemoteState r false)

/-- The loop over the keys under `gpu/`; the shell stops at the first command that fails. -/
def reap (ω : Nat → Reaping) : List RunId → Cloud → Bool × Cloud
  | [], c => (true, c)
  | r :: keys, c =>
    match reapKey (ω 0) r c with
    | (true, c') => reap (fun k => ω (k + 1)) keys c'
    | (false, c') => (false, c')

/-- Reaps one after another, each with its listing. -/
def reaps (runs : List (List RunId × (Nat → Reaping))) (c : Cloud) : Cloud :=
  runs.foldl (fun c run => (reap run.2 run.1 c).2) c

section
variable {e : Reaping} {r : RunId} {c : Cloud} {ω : Nat → Reaping} {keys : List RunId}

/-- One key: the servers stay recorded, no server or state object comes back, and when the commands
go through the run has neither. -/
structure Reaped (r : RunId) (c : Cloud) (out : Bool × Cloud) : Prop where
  recorded : out.2.Recorded
  server : ∀ r', out.2.server r' = true → c.server r' = true
  gone : out.1 = true → out.2.server r = false

theorem reaped_setServer {b : Bool} (h : c.Recorded) (hb : b = true → c.server r = true) :
    (c.setServer r b).Recorded ∧ ∀ r', (c.setServer r b).server r' = true → c.server r' = true := by
  have hfrom : ∀ r', (c.setServer r b).server r' = true → c.server r' = true := fun r' =>
    Cloud.serverFrom_setServer fun hr hs => hr ▸ hb hs
  exact ⟨fun r' hs => h r' (hfrom r' hs), hfrom⟩

theorem reapKey_reaped (h : c.Recorded) : Reaped r c (reapKey e r c) := by
  unfold reapKey
  split
  · exact ⟨h, fun _ hs => hs, nofun⟩
  split
  · obtain ⟨hrec, hfrom⟩ := reaped_setServer (r := r) (b := c.server r && e.serverLeft) h
      fun hb => (Bool.and_eq_true_iff.1 hb).1
    exact ⟨hrec, hfrom, nofun⟩
  obtain ⟨hrec, hfrom⟩ := reaped_setServer (r := r) (b := c.server r && !c.remoteState r) h
    fun hb => (Bool.and_eq_true_iff.1 hb).1
  have hgone : (c.setServer r (c.server r && !c.remoteState r)).server r = false := by
    show Function.update c.server r _ r = false
    rw [Function.update_self]
    cases hs : c.server r with
    | false => rfl
    | true => rw [h r hs]; rfl
  dsimp only
  split
  · exact ⟨hrec, hfrom, nofun⟩
  · refine ⟨fun r' hs => ?_, hfrom, fun _ => hgone⟩
    have hne : r' ≠ r := by
      rintro rfl
      cases hgone.symm.trans hs
    show Function.update c.remoteState r false r' = true
    rw [Function.update_of_ne hne]
    exact h r' (hfrom r' hs)

theorem reap_recorded (h : c.Recorded) : (reap ω keys c).2.Recorded ∧
    ∀ r, (reap ω keys c).2.server r = true → c.server r = true := by
  induction keys generalizing c ω with
  | nil => exact ⟨h, fun _ hs => hs⟩
  | cons key keys ih =>
    have hkey := reapKey_reaped (e := ω 0) (r := key) h
    rw [reap]
    split
    · rename_i c' hc
      rw [hc] at hkey
      obtain ⟨hrec, hfrom⟩ := ih (ω := fun k => ω (k + 1)) hkey.recorded
      exact ⟨hrec, fun r hs => hkey.server r (hfrom r hs)⟩
    · rename_i c' hc
      rw [hc] at hkey
      exact ⟨hkey.recorded, hkey.server⟩

theorem reap_gone (h : c.Recorded) (hok : (reap ω keys c).1 = true) (hr : r ∈ keys) :
    (reap ω keys c).2.server r = false := by
  induction keys generalizing c ω with
  | nil => cases hr
  | cons key keys ih =>
    have hkey := reapKey_reaped (e := ω 0) (r := key) h
    rw [reap] at hok ⊢
    split at hok
    · rename_i c' hc
      rw [hc] at hkey
      rcases List.mem_cons.1 hr with rfl | hr
      · rw [Bool.eq_false_iff]
        intro hs
        have hback := (reap_recorded (ω := fun k => ω (k + 1)) hkey.recorded).2 r hs
        exact Bool.false_ne_true ((hkey.gone rfl).symm.trans hback)
      · exact ih hkey.recorded hok hr
    · cases hok

theorem reaps_recorded {runs : List (List RunId × (Nat → Reaping))} (h : c.Recorded) :
    (reaps runs c).Recorded := by
  induction runs generalizing c with
  | nil => exact h
  | cons run runs ih => exact ih (reap_recorded h).1

end

/-- No server outlives a cycle: in whatever state the orchestrator is when its machine is destroyed,
every server is recorded, and however many reaps have failed before, a reap that lists the state
objects and goes through leaves no server. -/
theorem no_server_left {w : World} {p : System cfg} (hw : w.cloud.Recorded)
    (h : Pool.Reach Clear (System.start cfg w) p) :
    p.world.cloud.Recorded ∧
    ∀ (runs : List (List RunId × (Nat → Reaping))) (keys : List RunId) (ω : Nat → Reaping),
      (∀ r, (reaps runs p.world.cloud).remoteState r = true → r ∈ keys) →
      (reap ω keys (reaps runs p.world.cloud)).1 = true →
      ∀ r, (reap ω keys (reaps runs p.world.cloud)).2.server r = false := by
  have hcloud := recorded_of_reach hw h
  refine ⟨hcloud, fun runs keys ω hkeys hok r => ?_⟩
  have hrec : (reaps runs p.world.cloud).Recorded := reaps_recorded hcloud
  by_cases hr : r ∈ keys
  · exact reap_gone hrec hok hr
  · rw [Bool.eq_false_iff]
    intro hs
    exact hr (hkeys r (hrec r ((reap_recorded hrec).2 r hs)))

/-- The machine goes away in the middle of the first `apply` of run 7, which has created the server
and recorded it. -/
def Sample.cutOff : List (Step Sample.config) :=
  Sample.claimed 7 ++ Sample.steps 3 7 ++
    [.crash { serverAfterCrash := (· == 7), recordedAfterCrash := (· == 7) }]

theorem no_server_left_of_cutOff :
    let cloud := (Sample.start.play Sample.cutOff).world.cloud
    cloud.server 7 = true ∧ (reap (fun _ => {}) [7] (reaps [([7], fun _ =>
      { destroy := false, serverLeft := true })] cloud)).2.server 7 = false := by
  have hrecorded : Sample.world.cloud.Recorded := nofun
  have h := (no_server_left hrecorded (Pool.reach_play_of_obeys Sample.start Sample.cutOff
    (by decide +kernel) (by decide +kernel))).2
  refine ⟨by decide +kernel, h [([7], fun _ => { destroy := false, serverLeft := true })] [7]
    (fun _ => {}) (fun r hr => ?_) (by decide +kernel) 7⟩
  have hr : (false || ([⟨3, .provision, 7⟩] : List InProgress).any (·.runId = r) && r == 7) = true :=
    hr
  rw [Bool.false_or, Bool.and_eq_true] at hr
  exact List.mem_singleton.2 (eq_of_beq hr.2)

end GrillPlatform
