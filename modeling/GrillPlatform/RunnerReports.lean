import GrillPlatform.RunnerScript
import Mathlib.Data.List.Induction

/-! What the unit on the GPU machine reports, whatever its commands do: the phases in their order,
then one completion or a failure, and a failure last whenever the unit ends with an error. -/

namespace GrillPlatform.RunnerScript
open Shell

def phases : List String :=
  ["downloading_model", "starting_engine", "healthcheck", "warmup", "benchmarking"]

/-- How far the reports have come. -/
inductive Stage where
  | reporting (k : Nat)
  | completed
  | failed
  deriving DecidableEq, Repr

/-- What may be reported next. -/
def Stage.hear : Stage → Post → Option Stage
  | .reporting k, .phase phase => if phases[k]? = some phase then some (.reporting (k + 1)) else none
  | .reporting k, .logs => some (.reporting k)
  | .reporting k, .complete _ => if k = phases.length then some .completed else none
  | _, .fail _ => some .failed
  | _, _ => none

/-- The stage after reports, if they are in order. -/
def heard (posts : List (Post × Bool)) : Option Stage :=
  (posts.map (·.1)).foldlM Stage.hear (.reporting 0)

theorem heard_append (posts : List (Post × Bool)) (post : Post) (ok : Bool) :
    heard (posts ++ [(post, ok)]) = (heard posts).bind fun st => st.hear post := by
  rw [heard, heard, List.map_append, List.foldlM_append]
  simp

/-- Before a completion or a failure only phases and logs are reported. -/
theorem heard_reporting {posts : List (Post × Bool)} {k : Nat}
    (h : heard posts = some (.reporting k)) :
    ∀ x ∈ posts, x.1 = .logs ∨ ∃ phase, x.1 = .phase phase := by
  induction posts using List.reverseRecOn generalizing k with
  | nil => nofun
  | append_singleton posts x ih =>
    obtain ⟨post, ok⟩ := x
    rw [heard_append] at h
    obtain ⟨st, hst, hear⟩ := Option.bind_eq_some_iff.1 h
    intro y hy
    have hlast : ∃ j, st = .reporting j ∧ (post = .logs ∨ ∃ phase, post = .phase phase) := by
      unfold Stage.hear at hear
      split at hear
      · exact ⟨_, rfl, .inr ⟨_, rfl⟩⟩
      · exact ⟨_, rfl, .inl rfl⟩
      · split at hear <;> cases hear
      · cases hear
      · cases hear
    obtain ⟨j, rfl, hpost⟩ := hlast
    rcases List.mem_append.1 hy with hy | hy
    · exact ih hst y hy
    · rw [List.mem_singleton.1 hy]
      exact hpost

/-- Phase `k` is reported next. -/
def At (k : Nat) (s : State) : Prop := heard s.posts = some (.reporting k)

/-- The one completion of the results file has been sent, and was it taken for a success? -/
structure Sent (ok : Bool) (s : State) : Prop where
  uploaded : s.logsUploaded = true
  last : ∃ before, s.posts = before ++ [(.complete s.resultsFile, ok)] ∧
    heard before = some (.reporting phases.length)

/-- The reports are in order, and a completion is that of the results file. -/
structure InOrder (s : State) : Prop where
  heard : (heard s.posts).isSome
  payload : ∀ text ok, (.complete text, ok) ∈ s.posts → text = s.resultsFile

/-- The shell has ended with an error. -/
def Broken (o : Outcome) (s : State) : Prop := ∃ n, o = .exited n ∧ n ≠ 0 ∧ InOrder s

def Open (s : State) : Prop := (∃ k, At k s) ∨ ∃ ok, Sent ok s

theorem At.inOrder {k : Nat} {s : State} (h : At k s) : InOrder s := by
  refine ⟨by rw [h]; rfl, fun text ok hmem => ?_⟩
  rcases heard_reporting h _ hmem with h | ⟨phase, h⟩ <;> cases h

theorem Sent.heard {ok : Bool} {s : State} (h : Sent ok s) :
    heard s.posts = some .completed := by
  obtain ⟨before, hposts, hbefore⟩ := h.last
  rw [hposts, heard_append, hbefore]
  rfl

theorem Sent.inOrder {ok : Bool} {s : State} (h : Sent ok s) : InOrder s := by
  refine ⟨by rw [h.heard]; rfl, fun text ok' hmem => ?_⟩
  obtain ⟨before, hposts, hbefore⟩ := h.last
  rw [hposts] at hmem
  rcases List.mem_append.1 hmem with hmem | hmem
  · rcases heard_reporting hbefore _ hmem with h | ⟨phase, h⟩ <;> cases h
  · cases List.mem_singleton.1 hmem
    rfl

theorem Open.inOrder {s : State} (h : Open s) : InOrder s := by
  rcases h with ⟨k, h⟩ | ⟨ok, h⟩
  · exact h.inOrder
  · exact h.inOrder

/-- A function has returned with status 0, or the shell has ended. -/
def Left (P : State → Prop) (o : Outcome) (s : State) : Prop := o = .returned 0 ∧ P s ∨ Broken o s

section
variable {params : Params} {fuel : Nat} {γ : Context State} {place : Place} {P Q R : State → Prop}
  {c d : Cmd State} {S : Nat → State → Prop} {E : Outcome → State → Prop}
  {f : Answer → State → State}

theorem ends_left (h : Triple False fuel γ P c S Broken) : Triple False fuel γ P c S (Left Q) :=
  h.conseq (fun _ h => h) (fun _ _ h => h) fun _ _ h => .inr h

theorem returns (h : Triple False fuel γ.inFunction P c (Ok Q) (Left Q)) :
    Triple False fuel γ P (.call place c) (Ok Q) Broken :=
  Triple.call (h.conseq (fun _ h => h) (fun _ _ h => ⟨h.1, rfl, h.2⟩) fun o s h => by
    rcases h with ⟨ho, hQ⟩ | hb
    · exact .inl ⟨ho, rfl, hQ⟩
    · obtain ⟨n, ho, -⟩ := id hb
      exact .inr ⟨n, ho, hb⟩)

theorem external_unchecked (hP : ∀ a s, P s → Q (f a (s.ask a))) :
    Triple False fuel γ.unchecked P (external params place f) (fun _ => Q) E :=
  Triple.simple fun s hs => by
    rw [if_pos (.inr rfl)]
    exact hP _ s hs

theorem external_inFunction (hchecked : γ.checked = true)
    (hP : ∀ a s, P s → Q (f a (s.ask a)) ∧ InOrder (f a (s.ask a))) :
    Triple False fuel γ.inFunction P (external params place f) (Ok Q) Broken :=
  Triple.simple fun s hs => by
    obtain ⟨hQ, hin⟩ := hP (params.answers s.answered) s hs
    split
    · rename_i h
      rcases h with h | h
      · exact ⟨h, hQ⟩
      · cases hchecked.symm.trans h
    · rename_i h
      exact ⟨_, rfl, fun h0 => h (.inl h0), hin⟩

end

section
variable {params : Params} {fuel : Nat} {γ : Context State} {place : Place} {k : Nat}

theorem At.logs {s s' : State} {ok : Bool} (h : At k s)
    (hposts : s'.posts = s.posts ++ [(.logs, ok)]) : At k s' := by
  unfold At at h ⊢
  rw [hposts, heard_append, h]
  rfl

theorem At.quiet (hchecked : γ.checked = true) (place : Place) {f : Answer → State → State}
    (hf : ∀ a s, (f a s).posts = s.posts) :
    Triple False fuel γ.inFunction (At k) (external params place f) (Ok (At k)) Broken :=
  external_inFunction hchecked fun a s hs => by
    have hat : At k (f a (s.ask a)) := by
      unfold At
      rw [hf]
      exact hs
    exact ⟨hat, hat.inOrder⟩

theorem postLogs_triple (hchecked : γ.checked = true) :
    Triple False fuel γ (At k) (postLogs params) (Ok (At k)) Broken := by
  have quiet : ∀ (place : Place) (f : Answer → State → State),
      (∀ a s, (f a s).posts = s.posts) →
      Triple False fuel γ.inFunction (At k) (external params place f) (Ok (At k)) Broken :=
    fun place _ hf => At.quiet hchecked place hf
  have hbody : Triple False fuel γ.inFunction (At k) (block [
      external params ⟨28, "tmp=$(mktemp)"⟩ fun _ s => { s with tmp := true },
      external params ⟨29, "head"⟩, external params ⟨30, "printf"⟩,
      external params ⟨31, "tail"⟩]) (Ok (At k)) Broken := by
    refine Triple.next (quiet _ _ fun _ _ => rfl) (Triple.next (quiet _ _ fun _ _ => rfl) ?_)
    exact Triple.next (quiet _ _ fun _ _ => rfl) (quiet _ _ fun _ _ => rfl)
  have hcut : Triple False fuel γ.inFunction (At k) (.cond (test fun s => s.size ≤ 5242880) skip _)
      (Ok (At k)) Broken :=
    Triple.branch (Triple.skip fun _ h => h.1) (hbody.pre fun _ h => h.1)
  have hrm : Triple False fuel γ.inFunction (At k) (.or (test fun s => !s.tmp)
      (external params ⟨37, "rm"⟩)) (Ok (At k)) Broken :=
    Triple.unless (fun _ h _ => h) ((quiet _ _ fun _ _ => rfl).pre fun _ h => h.1)
  refine returns (ends_left ?_)
  refine Triple.next (Triple.assign (T := At k) fun _ h => h) ?_
  refine Triple.next ((external_unchecked (Q := At k) fun _ _ h => h).either (fun _ h => h)
    (Triple.assign fun _ h => h)) ?_
  exact Triple.next hcut (Triple.next (external_unchecked fun _ _ h => At.logs h rfl).tried hrm)

theorem uploadLogs_at (hchecked : γ.checked = true) :
    Triple False fuel γ (At k) (uploadLogs params) (Ok fun s => At k s ∧ s.logsUploaded = true)
      Broken := by
  refine returns ?_
  have hdone : Triple False fuel γ.inFunction (At k) (.and (test fun s => s.logsUploaded) (.ret 0))
      (fun _ => At k) (Left fun s => At k s ∧ s.logsUploaded = true) :=
    Triple.when (fun _ h _ => h) (Triple.ret fun _ h => .inl ⟨rfl, h⟩)
  have hflag : Triple False fuel γ.inFunction (At k)
      (block [assign fun s => { s with logsUploaded := true }, .ret 0])
      (Ok fun s => At k s ∧ s.logsUploaded = true)
      (Left fun s => At k s ∧ s.logsUploaded = true) :=
    Triple.next (Triple.assign (T := fun s => At k s ∧ s.logsUploaded = true)
      fun _ h => ⟨h, rfl⟩) (Triple.ret fun _ h => .inl ⟨rfl, h⟩)
  exact Triple.cons hdone (Triple.next (ends_left (postLogs_triple hchecked)) hflag)

theorem uploadLogs_sent {ok : Bool} :
    Triple False fuel γ (Sent ok) (uploadLogs params) (Ok (Sent ok)) Broken := by
  refine returns ?_
  have hdone : Triple False fuel γ.inFunction (Sent ok) (.and (test fun s => s.logsUploaded) (.ret 0))
      (fun _ _ => False) (Left (Sent ok)) :=
    Triple.when (fun s h hno => by cases h.uploaded.symm.trans hno)
      (Triple.ret fun _ h => .inl ⟨rfl, h.1⟩)
  exact Triple.cons hdone fun _ h => h.elim

theorem uploadLogs_open (hchecked : γ.checked = true) :
    Triple False fuel γ Open (uploadLogs params) (Ok Open) Broken := by
  rintro s (⟨k, h⟩ | ⟨ok, h⟩)
  · exact ((uploadLogs_at hchecked).post fun n s h => ⟨h.1, .inl ⟨k, h.2.1⟩⟩) s h
  · exact (uploadLogs_sent.post fun n s h => ⟨h.1, .inr ⟨ok, h.2⟩⟩) s h

theorem reportPhase_triple {line : Nat} {phase : String} (hphase : phases[k]? = some phase) :
    Triple False fuel γ (At k) (reportPhase params line phase) (Ok (At (k + 1))) Broken := by
  refine returns (external_unchecked fun a s h => ?_).tried
  have hnext : (Stage.reporting k).hear (.phase phase) = some (.reporting (k + 1)) := if_pos hphase
  unfold At at h ⊢
  rw [heard_append, show heard (s.ask a).posts = _ from h]
  exact hnext

theorem InOrder.failed {s s' : State} {message : String} {ok : Bool} (h : InOrder s)
    (hposts : s'.posts = s.posts ++ [(.fail message, ok)])
    (hresults : s'.resultsFile = s.resultsFile) : InOrder s' := by
  obtain ⟨st, hst⟩ := Option.isSome_iff_exists.1 h.heard
  refine ⟨?_, fun text ok' hmem => ?_⟩
  · rw [hposts, heard_append, hst]
    cases st <;> rfl
  · rw [hposts] at hmem
    rw [hresults]
    rcases List.mem_append.1 hmem with hmem | hmem
    · exact h.payload text ok' hmem
    · cases List.mem_singleton.1 hmem

theorem fail_triple (hchecked : γ.checked = true) {line : Nat} {message : State → String} :
    Triple False fuel γ Open (fail params line message) (fun _ _ => False) Broken := by
  refine (returns (Q := fun _ => False) ?_).post fun _ _ h => h.2
  refine Triple.next (ends_left (uploadLogs_open hchecked)) ?_
  refine Triple.next (R := InOrder) (external_unchecked fun a s h => h.inOrder.failed rfl rfl).tried ?_
  have hkill : ∀ place, Triple False fuel γ.inFunction InOrder
      (.or (.and (test fun s => s.enginePid) (external params place)) skip)
      (Ok InOrder) (Left fun _ => False) := fun place =>
    (Triple.when (T := InOrder) (fun _ h _ => h)
      (external_unchecked fun _ _ h => ⟨h.1.heard, h.1.payload⟩)).tried
  exact Triple.next (hkill _) (Triple.next (external_unchecked fun _ _ h => ⟨h.heard, h.payload⟩).tried
    (Triple.exit fun _ h => .inr ⟨1, rfl, nofun, h⟩))

theorem onErr_triple {n : Nat} :
    Triple False fuel {} Open (onErr params place n) (fun _ _ => False) Broken := by
  refine (returns (Q := fun _ => False) ?_).post fun _ _ h => h.2
  have htail : ∀ place, Triple False fuel {} Open (external params place fun a s =>
      { s with context := a.text }) (Ok Open) Broken := fun place =>
    external_inFunction (γ := {}) rfl fun a s h => by
      have hopen : Open { s.ask a with context := a.text } := by
        rcases h with ⟨k, h⟩ | ⟨ok, h⟩
        · exact .inl ⟨k, h⟩
        · exact .inr ⟨ok, h.uploaded, h.last⟩
      exact ⟨hopen, hopen.inOrder⟩
  exact Triple.next (ends_left (htail _)) ((ends_left (fail_triple rfl)).post fun _ _ h => h.elim)

end

/-- Where the commands of the script run after the trap is set. -/
def top (params : Params) (fuel : Nat) : Context State where
  trap := some fun place n => eval fuel (onErr params place n) {}

section
variable {params : Params} {fuel : Nat} {place : Place} {k : Nat} {P Q : State → Prop}
  {f : Answer → State → State}

theorem handled {n : Nat} {s : State} (h : Open s) :
    Handled False (top params fuel) place n Broken s := by
  refine (onErr_triple s h).mono fun o s' ho => ?_
  cases o with
  | status m => exact ho.elim
  | returned m =>
    obtain ⟨i, hi, -⟩ := ho
    cases hi
  | exited m => exact ho

theorem external_top (hQ : ∀ a s, P s → a.code = 0 → Q (f a (s.ask a)))
    (hopen : ∀ a s, P s → Open (f a (s.ask a))) :
    Triple False fuel (top params fuel) P (external params place f) (Ok Q) Broken :=
  Triple.simple fun s hs => by
    split
    · rename_i h
      rcases h with h | h
      · exact ⟨h, hQ _ s hs h⟩
      · cases h
    · exact handled (hopen _ s hs)

theorem quiet_top (hf : ∀ a s, (f a s).posts = s.posts) :
    Triple False fuel (top params fuel) (At k) (external params place f) (Ok (At k)) Broken := by
  have hat : ∀ a s, At k s → At k (f a (s.ask a)) := by
    intro a s h
    unfold At
    rw [hf]
    exact h
  exact external_top (fun a s h _ => hat a s h) fun a s h => .inl ⟨k, hat a s h⟩

theorem fail_top {line : Nat} {message : State → String} (hP : ∀ s, P s → Open s) :
    Triple False fuel (top params fuel) P (fail params line message) (Ok Q) Broken :=
  (fail_triple rfl).conseq hP (fun _ _ h => h.elim) fun _ _ h => h

theorem downloadModel_triple : Triple False fuel (top params fuel) (At 0) (downloadModel params)
    (Ok (At 1)) Broken := by
  have hdownload : Triple False fuel (top params fuel) (At 1) (download params) (Ok (At 1)) Broken :=
    (external_unchecked (Q := At 1) fun _ _ h => h).either (fun _ h => h)
      (Triple.assign fun _ h => h)
  have hengine : Triple False fuel (top params fuel) (At 1) (.cond (test fun _ => params.ggufFile ≠ "")
      (download params) (download params)) (Ok (At 1)) Broken :=
    Triple.branch (hdownload.pre fun _ h => h.1)
      (hdownload.pre fun _ h => h.1)
  refine Triple.next (reportPhase_triple rfl) (Triple.next (quiet_top fun _ _ => rfl) ?_)
  refine Triple.next (Triple.assign (T := At 1) fun _ h => h) (Triple.next hengine ?_)
  exact Triple.branch (fail_top fun s h => .inl ⟨1, h.1⟩)
    (Triple.branch (fail_top fun s h => .inl ⟨1, h.1.1⟩) (Triple.skip fun _ h => h.1.1))

theorem startEngine_triple : Triple False fuel (top params fuel) (At 1) (startEngine params)
    (Ok (At 2)) Broken := by
  have hpid : Triple False fuel (top params fuel) (At 2)
      (assign fun s => { s with enginePid := true }) (Ok (At 2)) Broken :=
    Triple.assign fun _ h => h
  have hgguf : Triple False fuel (top params fuel) (At 2) (.cond (test fun _ => params.ggufFile ≠ "") skip
      (external params ⟨115, "GGUF=$(ls \"$\x7bMODEL_DIR\x7d/$\x7bMODEL\x7d\"/*.gguf | head -1)"⟩))
      (Ok (At 2)) Broken :=
    Triple.branch (Triple.skip fun _ h => h.1)
      ((quiet_top fun _ _ => rfl).pre fun _ h => h.1)
  refine Triple.next (reportPhase_triple rfl) (Triple.branch ?_ (Triple.branch ?_ ?_))
  · exact hpid.pre fun _ h => h.1
  · refine Triple.pre (P := At 2) ?_ fun _ h => h.1.1
    exact Triple.next hgguf hpid
  · exact fail_top fun s h => .inl ⟨2, h.1.1⟩

/-- Rounds of the health check that are left, and one more. -/
def roundsLeft (s : State) : Nat := (s.deadline + 5 - s.clock) / 5

theorem healthcheck_triple : Triple False (maxRounds params) (top params (maxRounds params)) (At 2)
    (healthcheck params) (Ok (At 3)) Broken := by
  let γ := top params (maxRounds params)
  have hset : Triple False (maxRounds params) γ (At 3) (external params
      ⟨125, "DEADLINE=$(( $(date +%s) + ENGINE_HEALTH_TIMEOUT_SECONDS ))"⟩ fun _ s =>
        { s with deadline := s.clock + params.engineHealthTimeoutSeconds })
      (Ok fun s => At 3 s ∧ roundsLeft s < maxRounds params) Broken := by
    refine external_top (fun a s h _ => ⟨h, ?_⟩) fun a s h => .inl ⟨3, h⟩
    dsimp only [roundsLeft, maxRounds]
    omega
  have hround : ∀ j, Triple False (maxRounds params) γ (fun s => At 3 s ∧ roundsLeft s ≤ j)
      (block [
        .and (test fun s => s.deadline ≤ s.clock) (fail params 127 fun _ =>
          s!"engine did not become healthy within {params.engineHealthTimeoutSeconds}s"),
        external params ⟨128, "sleep 5"⟩ fun _ s => { s with clock := s.clock + 5 }])
      (fun _ s => At 3 s ∧ roundsLeft s < j) Broken := by
    intro j
    have hlate : Triple False (maxRounds params) γ (fun s => At 3 s ∧ roundsLeft s ≤ j)
        (.and (test fun s => s.deadline ≤ s.clock) (fail params 127 fun _ =>
          s!"engine did not become healthy within {params.engineHealthTimeoutSeconds}s"))
        (fun _ s => (At 3 s ∧ roundsLeft s ≤ j) ∧ s.clock < s.deadline) Broken :=
      Triple.when (fun s h hlt => ⟨h, by simpa using hlt⟩)
        ((fail_triple rfl).conseq (fun s h => .inl ⟨3, h.1.1⟩) (fun _ _ h => h.elim)
          fun _ _ h => h)
    have hsleep : Triple False (maxRounds params) γ
        (fun s => (At 3 s ∧ roundsLeft s ≤ j) ∧ s.clock < s.deadline)
        (external params ⟨128, "sleep 5"⟩ fun _ s => { s with clock := s.clock + 5 })
        (Ok fun s => At 3 s ∧ roundsLeft s < j) Broken := by
      refine external_top (fun a s h _ => ⟨h.1.1, ?_⟩) fun a s h => .inl ⟨3, h.1.1⟩
      obtain ⟨⟨-, hle⟩, hlt⟩ := h
      dsimp only [roundsLeft, State.ask] at hle ⊢
      omega
    exact Triple.cons hlate (hsleep.post fun _ _ h => h.2)
  have hask : ∀ j, Triple False (maxRounds params) γ.unchecked (fun s => At 3 s ∧ roundsLeft s = j)
      (external params ⟨126, "curl"⟩)
      (fun n s => if n = 0 then Ok (At 3) 0 s else At 3 s ∧ roundsLeft s ≤ j) Broken := by
    intro j
    refine (external_unchecked (Q := fun s => At 3 s ∧ roundsLeft s ≤ j) fun a s h => ?_).post
      fun n s h => ?_
    · obtain ⟨hat, rfl⟩ := h
      refine ⟨hat, ?_⟩
      dsimp only [roundsLeft, State.ask]
      omega
    · split
      · exact ⟨rfl, h.1⟩
      · exact h
  exact Triple.next (reportPhase_triple rfl)
    (Triple.next hset (Triple.untilDo roundsLeft hask hround))

theorem warmup_triple : Triple False fuel (top params fuel) (At 3) (warmup params) (Ok (At 4)) Broken :=
  Triple.next (reportPhase_triple rfl) (quiet_top fun _ _ => rfl)

theorem benchmark_triple : Triple False fuel (top params fuel) (At 4) (benchmark params) (Ok (At 5))
    Broken :=
  Triple.next (reportPhase_triple rfl) (quiet_top fun _ _ => rfl)

theorem reportSuccess_triple : Triple False fuel (top params fuel) (At 5) (reportSuccess params)
    (Ok (Sent true)) Broken := by
  let Ready : State → Prop := fun s =>
    (At 5 s ∧ s.logsUploaded = true) ∧ s.completePayload = s.resultsFile
  have hsent : ∀ (a : Answer) (s : State), Ready s → Sent (decide (a.code = 0)) { s.ask a with
      posts := s.posts ++ [(.complete s.completePayload, decide (a.code = 0))] } := by
    rintro a s ⟨⟨hat, hlogs⟩, hpayload⟩
    exact ⟨hlogs, s.posts, by rw [hpayload]; rfl, hat⟩
  have hpayload : ∀ place, Triple False fuel (top params fuel)
      (fun s => At 5 s ∧ s.logsUploaded = true)
      (external params place fun _ s => { s with completePayload := s.resultsFile })
      (Ok Ready) Broken :=
    fun place => external_top (fun a s h _ => ⟨h, rfl⟩) fun a s h => .inl ⟨5, h.1⟩
  have hcurl : ∀ place, Triple False fuel (top params fuel) Ready
      (curl params place fun s => .complete s.completePayload) (Ok (Sent true)) Broken := by
    refine fun place => external_top (fun a s h hcode => ?_) fun a s h => .inr ⟨_, hsent a s h⟩
    have h := hsent a s h
    rw [decide_eq_true hcode] at h
    rw [decide_eq_true hcode]
    exact h
  exact Triple.next (uploadLogs_at rfl) (Triple.next (hpayload _) (hcurl _))

theorem cleanup_triple : Triple False fuel (top params fuel) (Sent true) (cleanup params)
    (Ok (Sent true)) Broken := by
  have hkill : ∀ line, Triple False fuel (top params fuel) (Sent true)
      (.or (external params ⟨line, "kill"⟩) skip) (Ok (Sent true)) Broken :=
    fun line => (external_unchecked fun _ _ h => ⟨h.uploaded, h.last⟩).tried
  exact Triple.next (hkill 152) (Triple.next (hkill 153)
    (external_top (fun _ _ h _ => ⟨h.uploaded, h.last⟩)
      fun _ _ h => .inr ⟨true, h.uploaded, h.last⟩))

theorem script_triple : Triple False (maxRounds params) {} (At 0) (script params) (Ok (Sent true))
    Broken := by
  have hstart : ∀ (place : Place), Triple False (maxRounds params) {} (At 0) (external params place)
      (Ok (At 0)) Broken :=
    fun place => external_inFunction (γ := {}) rfl fun a s h => ⟨h, At.inOrder (k := 0) h⟩
  refine Triple.next (hstart _) (Triple.next (hstart _) (Triple.onErr ?_))
  refine Triple.next downloadModel_triple (Triple.next startEngine_triple
    (Triple.next healthcheck_triple (Triple.next warmup_triple (Triple.next benchmark_triple ?_))))
  exact Triple.next reportSuccess_triple cleanup_triple

end

/-! ## The unit -/

theorem stopPost_inOrder {params : Params} {code : Nat} {s : State} (h : InOrder s) :
    InOrder (stopPost params code s) := by
  unfold stopPost
  split
  · exact h
  · exact h.failed rfl rfl

/-- The unit ends after its completion was taken, or by the hook that posts a failure. -/
theorem unit_outcome (params : Params) (notStarted : Nat) : ∃ code s,
    unit params notStarted = some (code, s) ∧
    (code = 0 ∧ Sent true s ∨ code ≠ 0 ∧ ∃ s', InOrder s' ∧ s = stopPost params code s') := by
  unfold unit
  split
  · rename_i hno
    exact ⟨_, _, rfl, .inr ⟨hno, {}, At.inOrder (k := 0) rfl, rfl⟩⟩
  · obtain ⟨o, s, heval, ho⟩ := (script_triple {} rfl).ends
    refine ⟨exitStatus o, stopPost params (exitStatus o) s, by rw [heval]; rfl, ?_⟩
    have hstop : (Ok (Sent true)) (exitStatus o) s ∨ exitStatus o ≠ 0 ∧ InOrder s := by
      cases o with
      | status n => exact .inl ho
      | returned n =>
        obtain ⟨m, hm, -⟩ := ho
        cases hm
      | exited n =>
        obtain ⟨m, hm, hne, hin⟩ := ho
        cases hm
        exact .inr ⟨hne, hin⟩
    rcases hstop with ⟨hzero, hsent⟩ | ⟨hne, hin⟩
    · refine .inl ⟨hzero, ?_⟩
      rw [stopPost, if_pos hzero]
      exact hsent
    · exact .inr ⟨hne, s, hin, rfl⟩

theorem stopPost_last (params : Params) {code : Nat} (hcode : code ≠ 0) (s : State) :
    ∃ before message ok, (stopPost params code s).posts = before ++ [(.fail message, ok)] := by
  unfold stopPost
  rw [if_neg hcode]
  exact ⟨_, _, _, rfl⟩

theorem unit_reports (params : Params) (notStarted : Nat) : ∃ code s,
    unit params notStarted = some (code, s) ∧ InOrder s ∧
    (code = 0 → ∃ before, s.posts = before ++ [(.complete s.resultsFile, true)] ∧
      heard before = some (.reporting phases.length)) ∧
    (code ≠ 0 → ∃ before message ok, s.posts = before ++ [(.fail message, ok)]) := by
  obtain ⟨code, s, hunit, ⟨hzero, hsent⟩ | ⟨hne, s', hin, rfl⟩⟩ := unit_outcome params notStarted
  · exact ⟨code, s, hunit, hsent.inOrder, fun _ => hsent.last, fun h => absurd hzero h⟩
  · exact ⟨code, _, hunit, stopPost_inOrder hin, fun h => absurd h hne, fun _ =>
      stopPost_last params hne s'⟩

end GrillPlatform.RunnerScript
