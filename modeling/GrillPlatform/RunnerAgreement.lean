import GrillPlatform.Payload
import GrillPlatform.RunnerReports

/-! The runner and the server. What the unit on the GPU machine took for a success stands in the
database and in the bucket, whatever else the server was doing, failed at or restarted from. -/

namespace GrillPlatform
open Coroutine RunRepository
variable {cfg : Config}

def Request.did (h : History) : Request → Prop
  | .complete r _ => ∃ url result a, result.runId = r ∧
      h.has (.db (.completeRun r url result)) (.ok a)
  | .fail r message => ∃ a, h.has (.db (.failRun r message)) (.ok a)
  | _ => True

/-- A request returns only when it has done its work. -/
def Returned (req : Request) (γ : TaskName × History) : Except Exc Unit → Prop
  | .ok () => γ.1 = .request req ∧ req.did γ.2
  | .error _ => True

def TaskReturned (γ : TaskName × History) (e : Except Exc Unit) : Prop :=
  ∀ req, γ.1 = .request req → Returned req γ e

def free : Protocol sig (TaskName × History) := Prog.resting fun _ _ _ => True

theorem Request.did_cons {req : Request} {h : History} (x : sig.Answered) (hd : req.did h) :
    req.did (x :: h) := by
  cases req with
  | complete r jsonl =>
    obtain ⟨url, result, a, hr, ha⟩ := hd
    exact ⟨url, result, a, hr, List.mem_cons_of_mem _ ha⟩
  | fail r message =>
    obtain ⟨a, ha⟩ := hd
    exact ⟨a, List.mem_cons_of_mem _ ha⟩
  | _ => trivial

theorem maintains_did {α : Type} (req : Request) (p : Async α) :
    p.Maintains free fun γ => γ.1 = .request req ∧ req.did γ.2 :=
  p.calls_true.maintains fun _ _ hγ _ => ⟨trivial, fun _ => ⟨hγ.1, Request.did_cons _ hγ.2⟩⟩

theorem maintains_name {α : Type} (n : TaskName) (p : Async α) :
    p.Maintains free fun γ => γ.1 = n :=
  p.calls_true.maintains fun _ _ hγ _ => ⟨trivial, fun _ => hγ⟩

theorem returned_of_did {req : Request} {γ : TaskName × History} (hn : γ.1 = .request req)
    (hd : req.did γ.2) (p : Async Unit) : p.Follows free (Returned req) γ :=
  (maintains_did req p).follows ⟨hn, hd⟩ fun γ' e h => by
    cases e with
    | error x => trivial
    | ok _ => exact h

theorem returned_then {req : Request} {γ : TaskName × History} {p : Async Unit}
    {f : Unit → Async Unit} (hp : p.Follows free (Returned req) γ) :
    (p.bind f).Follows free (Returned req) γ :=
  Prog.follows_bind.2 (hp.mono fun γ' e h => by
    cases e with
    | error x => trivial
    | ok u => exact returned_of_did h.1 h.2 (f u))

theorem publish_returned {run : Run} {jsonl : String} {γ : TaskName × History}
    (hn : γ.1 = .request (.complete run.id jsonl)) (text : String) :
    (RunService.publish cfg run text).Follows free (Returned (.complete run.id jsonl)) γ := by
  refine (maintains_name _ _).bind hn (fun url γ' hn => ?_) fun _ _ _ => trivial
  show ((Prog.ofExcept (aggregate cfg.llmGrill text run)).bind _).Follows _ _ _
  cases ha : aggregate cfg.llmGrill text run with
  | error x => trivial
  | ok result =>
    show ((Prog.ofExcept (aggregatePerConcurrency cfg.llmGrill text)).bind _).Follows _ _ _
    cases hp : aggregatePerConcurrency cfg.llmGrill text with
    | error x => trivial
    | ok perConcurrency =>
      refine follows_query_bind trivial (fun completed => ?_) fun _ => trivial
      have hdid : Request.did (⟨.db (.completeRun run.id url.text result), .ok completed⟩ :: γ'.2)
          (.complete run.id jsonl) :=
        ⟨url.text, result, completed, runId_aggregate _ ha, List.mem_cons_self⟩
      exact returned_of_did (by exact hn) hdid _

theorem request_returned {req : Request} {γ : TaskName × History} (hn : γ.1 = .request req) :
    (req.body cfg).Follows free (Returned req) γ := by
  cases req with
  | complete r jsonl =>
    refine returned_then (follows_query_bind trivial (fun found => ?_) fun _ => trivial)
    match found with
    | none => trivial
    | some ⟨run, hr⟩ =>
      subst hr
      dsimp only
      split
      · trivial
      · exact publish_returned (by exact hn) jsonl
  | fail r message =>
    refine returned_then (follows_query_bind trivial (fun found => ?_) fun _ => trivial)
    match found with
    | none => trivial
    | some run =>
      dsimp only
      split
      · trivial
      · exact follows_query_bind trivial (fun failed => ⟨hn, failed, List.mem_cons_self⟩)
          fun _ => trivial
  | _ =>
    refine (maintains_name _ _).follows hn fun γ' e h => ?_
    cases e with
    | error x => trivial
    | ok _ => exact ⟨h, trivial⟩

theorem body_returned (cfg : Config) (n : TaskName) :
    (n.body cfg).Follows free TaskReturned (n, []) := by
  by_cases hn : ∃ req, n = .request req
  · obtain ⟨req, rfl⟩ := hn
    refine (request_returned (γ := (.request req, [])) rfl).mono fun γ e h req' hname => ?_
    cases e with
    | error x => trivial
    | ok _ =>
      cases h.1.symm.trans hname
      exact h
  · exact (maintains_name n _).follows rfl fun γ e h req hreq => absurd ⟨req, h.symm.trans hreq⟩ hn

/-! ## What stands -/

/-- What an answered call has settled. -/
def Settles (w : World) : sig.Answered → Prop
  | ⟨.db (.completeRun r _ result), .ok _⟩ =>
    w.db.status r = some .done ∧ (w.db.results.get result.runId).isSome
  | ⟨.db (.failRun r _), .ok _⟩ => w.db.status r = some .failed
  | _ => True

section
variable {p : System cfg} {i : Nat} {n : (orchestrator cfg).Name} {op : sig.Op}
  {next : sig.Resp op → Prog sig Exc Unit} {e : (orchestrator cfg).Env}

theorem settles_new : Settles (p.after i n op next e).world
    ⟨op, ((orchestrator cfg).handle i n op e p.world).1⟩ := by
  cases op with
  | db q =>
    cases q with
    | completeRun r url result =>
      show Settles _ ⟨.db (.completeRun r url result),
        ((Query.completeRun r url result).run e (p.world.clock + e.elapsed) p.world.db).1⟩
      match ha : ((Query.completeRun r url result).run e
        (p.world.clock + e.elapsed) p.world.db).1 with
      | .error x => trivial
      | .ok done =>
        obtain ⟨⟨run, -, -, hg⟩, hi⟩ := completeRun_ok (Query.run_ok ha)
        have hget := Table.get_insert hi result.runId
        rw [if_pos rfl] at hget
        exact ⟨Db.status_of_get hg, by rw [Option.isSome_iff_exists]; exact ⟨_, hget⟩⟩
    | failRun r message =>
      show Settles _ ⟨.db (.failRun r message),
        ((Query.failRun r message).run e (p.world.clock + e.elapsed) p.world.db).1⟩
      match ha : ((Query.failRun r message).run e
        (p.world.clock + e.elapsed) p.world.db).1 with
      | .error x => trivial
      | .ok failed =>
        obtain ⟨run, hg, -, hdb⟩ := onRun_ok (Query.run_ok ha)
        have hstatus := congrArg (fun db => db.status r) hdb
        rw [Db.status_modifyRun, if_pos rfl, hg] at hstatus
        exact hstatus
    | _ => trivial
  | _ => trivial

theorem settles_kept (hs : p.step (.run i e) = some (p.after i n op next e))
    (hk : FinalKept p (.run i e)) {x : sig.Answered} (hx : Settles p.world x) :
    Settles (p.after i n op next e).world x := by
  unfold Settles at hx ⊢
  split at hx
  · obtain ⟨hdone, hsome⟩ := hx
    obtain ⟨result, hresult⟩ := Option.isSome_iff_exists.1 hsome
    exact ⟨final_step hk hs (.inl rfl) hdone, by rw [result_kept hresult]; rfl⟩
  · exact final_step hk hs (.inr rfl) hx
  · trivial

end

/-- Under which executions the runner is believed: no call changes the status of a done or failed
run, and the completions of a run all bring the payload of the run. -/
def Trusted (payload : RunId → String) (p : System cfg) (l : Step cfg) : Prop :=
  FinalKept p l ∧ OnePayload payload p l

instance Trusted.decidable (payload : RunId → String) (p : System cfg) (l : Step cfg) :
    Decidable (Trusted payload p l) :=
  inferInstanceAs (Decidable (FinalKept p l ∧ OnePayload payload p l))

section
variable {payload : RunId → String} {w : World} {p : System cfg}

theorem result_stays {C : System cfg → Step cfg → Prop} {q : System cfg} (h : Pool.Reach C p q)
    {r : RunId} {result : Result} (hg : p.world.db.results.get r = some result) :
    q.world.db.results.get r = some result :=
  h.invariant (I := fun q => q.world.db.results.get r = some result) hg fun p q l hI _ hs => by
    rcases Pool.step_cases hs with ⟨i, e, n, op, next, rfl, -, rfl⟩ | ⟨n, rfl, -, rfl⟩ | ⟨e, rfl, rfl⟩
    · exact result_kept hI
    · exact hI
    · exact hI

theorem returned_settled (h : Pool.Reach (Trusted payload) (System.start cfg w) p) {i : Nat}
    {req : Request} (hi : p.HasReturned i (.request req)) :
    ∃ hist : History, (∀ x ∈ hist, Settles p.world x) ∧ req.did hist := by
  have hrested := (Pool.Reach.rested (fun _ _ _ => True) Settles h
    (fun _ => True) (body_returned cfg) trivial
    (fun _ _ _ _ _ _ _ _ _ _ _ hi hc => ⟨trivial, settles_new, fun _ =>
      settles_kept (Pool.step_run hi) hc.1⟩) fun _ _ _ _ _ => trivial).2
  obtain ⟨hist, hfacts, hq⟩ := hrested.returned hi
  exact ⟨hist, hfacts, (hq req rfl).2⟩

theorem complete_settled (h : Pool.Reach (Trusted payload) (System.start cfg w) p) {i : Nat}
    {r : RunId} {jsonl : String}
    (hi : p.HasReturned i (.request (.complete r jsonl))) :
    p.world.db.status r = some .done ∧ (p.world.db.results.get r).isSome := by
  obtain ⟨hist, hfacts, url, result, a, rfl, ha⟩ := returned_settled h hi
  exact hfacts _ ha

theorem fail_settled (h : Pool.Reach (Trusted payload) (System.start cfg w) p) {i : Nat}
    {r : RunId} {message : String}
    (hi : p.HasReturned i (.request (.fail r message))) :
    p.world.db.status r = some .failed := by
  obtain ⟨hist, hfacts, a, ha⟩ := returned_settled h hi
  exact hfacts _ ha

end

namespace RunnerScript

inductive Post.Requests (r : RunId) : Post → Request → Prop
  | phase (phase : String) : Requests r (.phase phase) (.setPhase r phase)
  | logs (body : List UInt8) : Requests r .logs (.attachLogs r body)
  | complete (text : String) : Requests r (.complete text) (.complete r text)
  | fail (message : String) : Requests r (.fail message) (.fail r message)

/-- At some point of the execution from `p₀` to `p` the report had been answered with a success. -/
def Answered (C : System cfg → Step cfg → Prop) (p₀ p : System cfg) (r : RunId) (post : Post) :
    Prop :=
  ∃ (p₁ : System cfg) (i : Nat) (req : Request), Pool.Reach C p₀ p₁ ∧ Pool.Reach C p₁ p ∧
    post.Requests r req ∧ p₁.HasReturned i (.request req)

section
variable {payload : RunId → String} {w : World} {p : System cfg} {r : RunId}

theorem Answered.done {text : String}
    (h : Answered (Trusted payload) (System.start cfg w) p r (.complete text)) :
    Pool.Reach (Trusted payload) (System.start cfg w) p ∧ p.world.db.status r = some .done ∧
      (p.world.db.results.get r).isSome := by
  obtain ⟨p₁, i, req, h₁, h₂, hreq, hi⟩ := h
  cases hreq
  obtain ⟨hdone, hresult⟩ := complete_settled h₁ hi
  obtain ⟨result, hresult⟩ := Option.isSome_iff_exists.1 hresult
  refine ⟨h₁.trans h₂, final_kept (h₂.mono fun _ _ => And.left) (.inl rfl) hdone, ?_⟩
  exact Option.isSome_iff_exists.2 ⟨result, result_stays h₂ hresult⟩

theorem Answered.failed {message : String}
    (h : Answered (Trusted payload) (System.start cfg w) p r (.fail message)) :
    p.world.db.status r = some .failed := by
  obtain ⟨p₁, i, req, h₁, h₂, hreq, hi⟩ := h
  cases hreq
  exact final_kept (h₂.mono fun _ _ => And.left) (.inr rfl) (fail_settled h₁ hi)

end

/-- What the unit and the server tell of a run agrees. When the unit ends with success, the run is
done, and its result row and its object are those of the results file; when the unit ends with an
error and its last report was taken, the run has failed. -/
theorem unit_agrees {params : Params} {notStarted code : Nat} {s : State} {w : World}
    {p : System cfg} {r : RunId} {payload : RunId → String}
    (hunit : unit params notStarted = some (code, s)) (hpayload : payload r = s.resultsFile)
    (hw : Grounded w) (hw' : Faithful cfg payload w)
    (h : ∀ post, (post, true) ∈ s.posts →
      Answered (Trusted payload) (System.start cfg w) p r post) :
    (code = 0 → ∃ run result, p.world.db.runs.get r = some run ∧ run.status = .done ∧
      p.world.db.results.get r = some result ∧
      p.world.s3 run.resultsKey = some (.jsonl s.resultsFile) ∧
      aggregate cfg.llmGrill s.resultsFile run = .ok result) ∧
    (code ≠ 0 → ∃ message ok, s.posts.getLast? = some (.fail message, ok) ∧
      (ok = true → p.world.db.status r = some .failed)) ∧
    ∀ message text, (.fail message, true) ∈ s.posts → (.complete text, true) ∉ s.posts := by
  obtain ⟨code', s', hrun, hout⟩ := unit_outcome params notStarted
  cases hunit.symm.trans hrun
  refine ⟨fun hcode => ?_, fun hcode => ?_, fun message text hfail hcomplete => ?_⟩
  · obtain ⟨-, hsent⟩ := hout.resolve_right fun h => h.1 hcode
    obtain ⟨before, hposts, -⟩ := hsent.last
    obtain ⟨hreach, hdone, hresult⟩ := (h (.complete s.resultsFile) (by simp [hposts])).done
    obtain ⟨result, hresult⟩ := Option.isSome_iff_exists.1 hresult
    have honly := hreach.mono fun _ _ => And.right
    obtain ⟨run, hg, hstored, haggregate⟩ :=
      (faithful_of_reach hw hw' honly).published (grounded_of_reach hw honly) hresult
    rw [hpayload] at hstored haggregate
    exact ⟨run, result, hg, Option.some.inj ((Db.status_of_get hg).symm.trans hdone), hresult,
      hstored, haggregate⟩
  · obtain ⟨-, s', -, rfl⟩ := hout.resolve_left fun h => hcode h.1
    obtain ⟨before, message, ok, hposts⟩ := stopPost_last params hcode s'
    refine ⟨message, ok, by simp [hposts], fun hok => ?_⟩
    subst hok
    exact (h (.fail message) (by simp [hposts])).failed
  · cases (h _ hcomplete).done.2.1.symm.trans (h _ hfail).failed

/-- A unit whose phases and logs get lost on the way. -/
def lossy : Params where
  engine := "vllm"
  answers k := { code := if k ∈ [2, 5, 6, 9, 11, 14] then 22 else 0, text := "" }

/-- What it has told the server when it ends with success. -/
def lossyState : State := ((unit lossy 0).getD (0, {})).2

theorem unit_agrees_of_completed :
    let p := Sample.start.play (Sample.completed 7)
    ∃ run result, p.world.db.runs.get 7 = some run ∧ run.status = .done ∧
      p.world.db.results.get 7 = some result ∧
      p.world.s3 run.resultsKey = some (.jsonl "") ∧
      aggregate Sample.llmGrill "" run = .ok result := by
  intro p
  have hunit : unit lossy 0 = some (0, lossyState) := rfl
  have hfile : lossyState.resultsFile = "" := rfl
  have haccepted : ∀ x ∈ lossyState.posts, x.2 = true → x.1 = .complete "" := by
    decide +kernel
  have hreach : Pool.Reach (Trusted fun _ => "") Sample.start p :=
    Pool.reach_play_of_obeys Sample.start (Sample.completed 7) (by decide) (by decide)
  have htask : p.HasReturned 5 (.request (.complete 7 "")) := by decide
  have h := (unit_agrees (r := 7) hunit (by exact hfile.symm) grounded_sample
    (faithful_sample Sample.config fun _ => "") fun post hpost => by
      have hcomplete : post = .complete "" := haccepted _ hpost rfl
      subst hcomplete
      exact ⟨p, 5, _, hreach, .init, .complete _, htask⟩).1 rfl
  rw [hfile] at h
  exact h

end RunnerScript
end GrillPlatform
