import GrillPlatform.Completion
import GrillPlatform.Footprint

/-! A completion sent again. A POST that fails before its commit leaves the run running, and the
next one publishes it; a POST that fails later leaves the run done, and the next one is refused. -/

namespace GrillPlatform
open Coroutine RunRepository
variable {cfg : Config}

/-- An entry of the leaderboard for the model and the engine of the run. -/
def ofPair (run : Run) (e : Json) : Bool :=
  e.hasStr "model" run.model && e.hasStr "engine" run.engine.value

/-- The run is published, and its node is about to be released. -/
structure Converged (run : Run) (w : World) (created : List TaskName) : Prop where
  done : w.db.status run.id = some .done
  oneResult : w.db.results.rows.countP (fun result => result.runId = run.id) = 1
  latestMeta : ∃ doc, w.s3 (latestMetaKey run.model run.engine) = some (.completedRun doc) ∧
    doc.runId = run.id
  leaderboard : ∃ entries e, w.s3 .leaderboard = some (.leaderboard entries) ∧
    entries.filter (ofPair run) = [e] ∧ e.names run.id = true
  released : .releaseNode run.id ∈ created

/-- The first POST fails before its commit or not at all, no result of the run is there yet, and
the leaderboard can be read. -/
def Retriable (run : Run) (w : World) (ω : Nat → Env) : Prop :=
  (FailsBeforeCommit ω ∨ ∀ k < 7, (ω k).fault = .none) ∧ w.db.results.get run.id = none ∧
    (leaderboardEntries (w.s3 .leaderboard)).isOk

section
variable {run : Run} {w w' : World} {created created' : List TaskName}

theorem filter_pair (run : Run) (entries : List Json) (result : Result) (perConcurrency : List Json)
    (t : Time) : (withoutPair entries run.model run.engine ++
      [leaderboardEntry run result perConcurrency t]).filter (ofPair run) =
        [leaderboardEntry run result perConcurrency t] := by
  have hout : (withoutPair entries run.model run.engine).filter (ofPair run) = [] := by
    rw [List.filter_eq_nil_iff]
    intro e he
    have h : ofPair run e = false :=
      (Bool.not_eq_true' _).mp (List.mem_filter.1 he).2
    rw [h]
    exact Bool.false_ne_true
  have hin : ofPair run (leaderboardEntry run result perConcurrency t) = true := by
    rw [ofPair, hasStr_model, hasStr_engine, decide_eq_true rfl, decide_eq_true rfl]
    rfl
  rw [List.filter_append, hout, List.nil_append, List.filter_singleton, hin]
  rfl

theorem converged_of_announced {jsonl url : String} {result : Result} {perConcurrency : List Json}
    {ω : Nat → Env} {t : Time} {w₁ : World} (hc : Committed run jsonl result t w w₁)
    (hid : result.runId = run.id)
    (hA : Announced (completed url t run) t result perConcurrency ω w₁ created w' created')
    (ht : Through ω w₁.s3) : Converged run w' created' where
  done := by
    rw [hA.db, Db.status_of_get hc.done]
    rfl
  oneResult := by
    rw [hA.db]
    exact Table.countP_of_get ((Table.get_insert hc.inserted _).trans (if_pos hid))
  latestMeta := ⟨_, hA.latestMeta.trans (if_neg (by rw [ht.1 0 (by decide)]; decide)), rfl⟩
  leaderboard := by
    obtain ⟨entries, -, h⟩ := hA.leaderboard ht
    exact ⟨_, _, h, filter_pair (completed url t run) entries result perConcurrency t,
      by rw [names_leaderboardEntry]; exact decide_eq_true rfl⟩
  released := by
    rw [hA.released, if_pos ht]
    exact List.mem_append_right _ (List.mem_singleton.2 rfl)

theorem leaderboard_of_uploaded {jsonl : String} {moved : Prop} [Decidable moved] {b b' : S3}
    (h : Uploaded run jsonl moved b b') : b' .leaderboard = b .leaderboard :=
  h.others _ S3Key.noConfusion S3Key.noConfusion

theorem not_converged_of_created (h : .releaseNode run.id ∉ created) : ¬ Converged run w created :=
  fun hc => h hc.released

theorem Converged.congr (h : Converged run w created) (hdb : w'.db = w.db) (hs3 : w'.s3 = w.s3) :
    Converged run w' created where
  done := by rw [hdb, h.done]
  oneResult := by rw [hdb, h.oneResult]
  latestMeta := by rw [hs3]; exact h.latestMeta
  leaderboard := by rw [hs3]; exact h.leaderboard
  released := h.released

/-- Two POSTs of one payload, the second without a fault, and nothing between their calls. -/
theorem complete_twice {jsonl : String} {i j : Nat} {n m : TaskName} {ω₁ : Nat → Env}
    (hg : w.db.runs.get run.id = some run) (hs : run.status = .running)
    (ha : Accepted cfg run jsonl) :
    Ends cfg i n (RunController.complete cfg run.id jsonl) ω₁ w [] fun _ w₁ c₁ =>
      ∀ ω₂ : Nat → Env, (∀ k, (ω₂ k).fault = .none) →
        Ends cfg j m (RunController.complete cfg run.id jsonl) ω₂ w₁ c₁ fun _ w₂ c₂ =>
          (Converged run w₂ c₂ ↔ Retriable run w ω₁) := by
  obtain ⟨⟨result, hr⟩, perConcurrency, hp⟩ := accepted_ok ha
  have hid : result.runId = run.id := runId_aggregate cfg.llmGrill hr
  by_cases hfresh : w.db.results.get run.id = none
  case neg =>
    -- the commit conflicts both times
    apply (complete_uncommitted hg hs (.inr (.inl hfresh))).mono
    rintro - w₁ c₁ ⟨hdb, -, rfl, -⟩ ω₂ h₂
    apply (complete_uncommitted (hdb ▸ hg) hs (.inr (.inl (hdb ▸ hfresh)))).mono
    rintro - w₂ c₂ ⟨-, -, rfl, -⟩
    exact iff_of_false (not_converged_of_created List.not_mem_nil) fun h => hfresh h.2.1
  case pos =>
  by_cases hf : FailsBeforeCommit ω₁
  · apply (complete_uncommitted hg hs (.inl hf)).mono
    rintro - w₁ c₁ ⟨hdb, hu, rfl, -⟩ ω₂ h₂
    apply (complete_committed (hdb ▸ hg) hs (hdb ▸ hfresh) hr hp (not_failsBeforeCommit h₂)).mono
    rintro - w₂ c₂ ⟨t, w₀, hc, hA⟩
    rw [if_pos (h₂ 3)] at hA
    have hl : w₀.s3 .leaderboard = w.s3 .leaderboard :=
      (leaderboard_of_uploaded hc.uploaded).trans (leaderboard_of_uploaded hu)
    by_cases ht : Through (fun k => ω₂ (k + 4)) w₀.s3
    · exact iff_of_true (converged_of_announced hc hid hA ht) ⟨.inl hf, hfresh, hl ▸ ht.2⟩
    · refine iff_of_false (not_converged_of_created ?_) fun h =>
        ht ⟨fun k _ => h₂ (k + 4), hl ▸ h.2.2⟩
      rw [hA.released, if_neg ht]
      exact List.not_mem_nil
  · have hk : ∀ k < 3, (ω₁ k).fault = .none := fun k h => by
      by_contra hne
      exact hf (.inl ⟨k, h, hne⟩)
    apply (complete_committed hg hs hfresh hr hp hf).mono
    rintro - w₁ c₁ ⟨t, w₀, hc, hA⟩ ω₂ h₂
    have hdb : w₁.db = w₀.db := by
      split at hA
      · exact hA.db
      · exact hA.1
    -- the run is done, so the second POST changes nothing
    have hdone : w₁.db.status run.id ≠ some .running := by
      rw [hdb, Db.status_of_get hc.done]
      intro h
      cases h
    apply (complete_refused hdone).mono
    rintro - w₂ c₂ ⟨hdb₂, hs3, rfl, -⟩
    have hl : w₀.s3 .leaderboard = w.s3 .leaderboard := leaderboard_of_uploaded hc.uploaded
    by_cases h3 : (ω₁ 3).fault = .none
    · rw [if_pos h3] at hA
      by_cases ht : Through (fun k => ω₁ (k + 4)) w₀.s3
      · refine iff_of_true ((converged_of_announced hc hid hA ht).congr hdb₂ hs3)
          ⟨.inr fun k hk7 => ?_, hfresh, hl ▸ ht.2⟩
        obtain h | rfl | ⟨l, hl, rfl⟩ : k < 3 ∨ k = 3 ∨ ∃ l < 3, k = l + 4 := by
          rcases by omega with h | h | h : k < 3 ∨ k = 3 ∨ 4 ≤ k
          · exact .inl h
          · exact .inr (.inl h)
          · exact .inr (.inr ⟨k - 4, by omega, by omega⟩)
        · exact hk k h
        · exact h3
        · exact ht.1 l hl
      · refine iff_of_false (not_converged_of_created ?_) fun h => ht ⟨fun k hk3 => ?_, hl ▸ h.2.2⟩
        · rw [hA.released, if_neg ht]
          exact List.not_mem_nil
        · exact (h.1.resolve_left hf) (k + 4) (by omega)
    · rw [if_neg h3] at hA
      obtain ⟨-, -, rfl⟩ := hA
      exact iff_of_false (not_converged_of_created List.not_mem_nil) fun h =>
        h3 ((h.1.resolve_left hf) 3 (by decide))

end

/-! ## Among the other tasks -/

/-- The objects a completion of the run reads, and those it is judged by. -/
def objectOf (run : Run) : S3Key → Prop
  | .runResults _ _ r => r = run.id
  | .latestMeta slug engine => .latestMeta slug engine = latestMetaKey run.model run.engine
  | .leaderboard => True
  | _ => False

/-- The run, its result and its objects are the same in both worlds. -/
structure Alike (run : Run) (w v : World) : Prop where
  row : w.db.runs.get run.id = v.db.runs.get run.id
  result : w.db.results.get run.id = v.db.results.get run.id
  objects : ∀ key, objectOf run key → w.s3 key = v.s3 key

/-- Nothing but task `i` touches the run: no crash, no write to the run, its result or its objects,
and no other task that schedules its release. -/
def Untouched (run : Run) (i : Nat) (p : System cfg) (l : Step cfg) : Prop :=
  match l with
  | .crash _ => False
  | .run j _ => j = i ∨ ∀ q ∈ p.step l, Alike run q.world p.world ∧
      TaskName.releaseNode run.id ∉ (System.taskNames q).drop p.tasks.length
  | .arrive _ => True

theorem Alike.trans {run : Run} {w v u : World} (h : Alike run w v) (h' : Alike run v u) :
    Alike run w u :=
  ⟨h.row.trans h'.row, h.result.trans h'.result,
    fun key hk => (h.objects key hk).trans (h'.objects key hk)⟩

theorem Converged.of_alike {run : Run} {w v : World} {created : List TaskName}
    (h : Converged run v created) (ha : Alike run w v) : Converged run w created where
  done := by rw [Db.status, ha.row]; exact h.done
  oneResult := by
    obtain ⟨result, hr⟩ := Table.get_of_countP h.oneResult
    exact Table.countP_of_get (ha.result.trans hr)
  latestMeta := by rw [ha.objects (latestMetaKey run.model run.engine) rfl]; exact h.latestMeta
  leaderboard := by rw [ha.objects .leaderboard trivial]; exact h.leaderboard
  released := h.released

section
variable {run : Run} {i : Nat} {e e' : Env} {w v : World}

theorem runGet_alike (ha : Alike run w v) (hf : e'.fault = e.fault) (he : e'.error = e.error) :
    (w.call cfg i e (.db (.runGet run.id))).1 = (v.call cfg i e' (.db (.runGet run.id))).1 ∧
      Alike run (w.call cfg i e (.db (.runGet run.id))).2
        (v.call cfg i e' (.db (.runGet run.id))).2 := by
  have hrow := ha.row
  refine Env.guard_rel (fun d d' => Alike run { w with db := d } { v with db := d' }) hf he ha ?_ ?_
  · cases hg : v.db.runs.get run.id with
    | none =>
      dsimp only [Query.tx]
      rw [get_of_none hg, get_of_none (hrow.trans hg)]
    | some x =>
      dsimp only [Query.tx]
      rw [get_of_get hg, get_of_get (hrow.trans hg)]
  · exact ha

theorem completeRun_alike {url : String} {result : Result} (ha : Alike run w v)
    (hclock : w.clock = v.clock) (hid : result.runId = run.id) (hf : e'.fault = e.fault)
    (he : e'.error = e.error) :
    (w.call cfg i e (.db (.completeRun run.id url result))).1 =
        (v.call cfg i e' (.db (.completeRun run.id url result))).1 ∧
      Alike run (w.call cfg i e (.db (.completeRun run.id url result))).2
        (v.call cfg i e' (.db (.completeRun run.id url result))).2 := by
  have hc := completeRun_congr url w.clock hid ha.row ha.result
  refine Env.guard_rel (fun d d' => Alike run { w with db := d } { v with db := d' }) hf he ha ?_ ?_
  · dsimp only [Query.tx]
    rcases hc with ⟨x, h, h'⟩ | ⟨a, d, d', h, h', -, -⟩
    · rw [← hclock, h, h']
    · rw [← hclock, h, h']
  · dsimp only [Query.tx]
    rcases hc with ⟨x, h, h'⟩ | ⟨a, d, d', h, h', hrow, hresult⟩
    · rw [← hclock, h, h']
      exact ⟨ha.row, ha.result, ha.objects⟩
    · rw [← hclock, h, h']
      exact ⟨hrow, hresult, ha.objects⟩

theorem s3_alike {q : S3Call} (ha : Alike run w v) (hf : e'.fault = e.fault)
    (he : e'.error = e.error) (hq : match q with
      | .putObject .. => True
      | .copyObject _ source => objectOf run source
      | .getObject key => objectOf run key
      | .headObject _ => False) :
    (w.call cfg i e (.s3 q)).1 = (v.call cfg i e' (.s3 q)).1 ∧
      Alike run (w.call cfg i e (.s3 q)).2 (v.call cfg i e' (.s3 q)).2 := by
  have hput : ∀ key body, Alike run { w with s3 := Function.update w.s3 key (some body) }
      { v with s3 := Function.update v.s3 key (some body) } := fun key body =>
    ⟨ha.row, ha.result, fun k hk => by
      dsimp only
      by_cases h : k = key
      · rw [h, Function.update_self, Function.update_self]
      · rw [Function.update_of_ne h, Function.update_of_ne h, ha.objects k hk]⟩
  let P := fun b b' : S3 => Alike run { w with s3 := b } { v with s3 := b' }
  cases q with
  | putObject key body => exact Env.guard_rel P hf he ha rfl (hput key body)
  | copyObject key source =>
    have hs := ha.objects source hq
    refine Env.guard_rel P hf he ha ?_ ?_
    · rw [hs]
      cases v.s3 source <;> rfl
    · rw [hs]
      cases v.s3 source with
      | none => exact ha
      | some body => exact hput key body
  | getObject key => exact Env.guard_rel P hf he ha (congrArg Except.ok (ha.objects key hq)) ha
  | headObject key => exact hq.elim

theorem call_alike (cfg : Config) (i : Nat) (e e' : Env) {jsonl : String} {op : Op}
    (hop : RequestOp (.complete run.id jsonl) op) (ha : Alike run w v) (hclock : w.clock = v.clock)
    (hf : e'.fault = e.fault) (he : e'.error = e.error) :
    (w.call cfg i e op).1 = (v.call cfg i e' op).1 ∧
      Alike run (w.call cfg i e op).2 (v.call cfg i e' op).2 := by
  cases op with
  | db c =>
    cases c with
    | runGet r =>
      obtain rfl : r = run.id := hop
      exact runGet_alike ha hf he
    | completeRun r url result =>
      obtain ⟨rfl, hid⟩ : r = run.id ∧ result.runId = run.id := hop
      exact completeRun_alike ha hclock hid hf he
    | _ => exact hop.elim
  | s3 q =>
    apply s3_alike ha hf he
    cases q with
    | putObject => trivial
    | copyObject key source =>
      obtain ⟨slug, engine, rfl⟩ := hop
      rfl
    | getObject key =>
      cases key with
      | leaderboard => trivial
      | _ => exact hop.elim
    | headObject => exact hop.elim
  | now => exact ⟨hclock, ha⟩
  | createTask => exact ⟨rfl, ha⟩
  | _ => exact hop.elim

theorem clock_call (op : Op) : (w.call cfg i e op).2.clock = w.clock := by
  cases op <;> rfl

end

/-- A pool beside a world in which the run's completions are alone: the run is the same in both, and
its release has been scheduled in both or in none. `len` tasks are older than the first POST. -/
structure Shadows (run : Run) (len : Nat) (p : System cfg) (s : World × List TaskName) : Prop where
  alike : Alike run p.world s.1
  clock : s.1.clock ≤ p.world.clock
  length : len ≤ p.tasks.length
  released : .releaseNode run.id ∈ (System.taskNames p).drop len ↔ .releaseNode run.id ∈ s.2

section
variable {run : Run} {len : Nat} {p q : System cfg} {s : World × List TaskName} {jsonl : String}
  {i : Nat} {n : (orchestrator cfg).Name} {op : sig.Op} {next : sig.Resp op → Prog sig Exc Unit}
  {e : (orchestrator cfg).Env}

theorem taskNames_after (ht : p.tasks[i]? = some ⟨n, .call op next⟩) :
    System.taskNames (p.after i n op next e) = System.taskNames p ++ (Op.created op).toList := by
  obtain ⟨hlt, hi⟩ := List.getElem?_eq_some_iff.1 ht
  have hset : (p.tasks.map Task.name).set i n = p.tasks.map Task.name := by
    have hlt' : i < (p.tasks.map Task.name).length := by simpa using hlt
    have hn : (p.tasks.map Task.name)[i] = n := by rw [List.getElem_map, hi]
    conv_lhs => rw [← hn]
    exact List.set_getElem_self _
  have hnew : ((orchestrator cfg).handle i n op e p.world).2.2 = Op.created op := rfl
  rw [System.taskNames, Pool.after, List.map_append, List.map_set, hset, hnew]
  cases Op.created op <;> rfl

theorem mem_drop_append {names new : List TaskName} (h : len ≤ names.length) (m : TaskName) :
    m ∈ (names ++ new).drop len ↔ m ∈ names.drop len ∨ m ∈ new := by
  rw [List.drop_append_of_le_length h, List.mem_append]

theorem Shadows.after (h : Shadows run len p s) (ht : p.tasks[i]? = some ⟨n, .call op next⟩)
    (hop : RequestOp (.complete run.id jsonl) op) : ∃ e' : Env,
      (e'.fault = Env.fault e ∧ e'.error = Env.error e) ∧
      ((orchestrator cfg).handle i n op e p.world).1 =
        (Pool.solo (orchestrator cfg) i n op e' s).1 ∧
      Shadows run len (p.after i n op next e) (Pool.solo (orchestrator cfg) i n op e' s).2 := by
  -- the time since the last call covers what passed in the steps of the others
  let e' : Env := { e with elapsed := (p.world.clock + Env.elapsed e - s.1.clock).toNat }
  have ht' : p.world.clock + Env.elapsed e = s.1.clock + e'.elapsed := by
    have hle : s.1.clock ≤ p.world.clock + Env.elapsed e :=
      h.clock.trans (Int.le_add_of_nonneg_right (Int.natCast_nonneg _))
    dsimp only [e']
    rw [Int.toNat_of_nonneg (Int.sub_nonneg.2 hle), add_sub_cancel]
  have ha : Alike run { p.world with clock := p.world.clock + Env.elapsed e }
      { s.1 with clock := s.1.clock + e'.elapsed } := ⟨h.alike.row, h.alike.result, h.alike.objects⟩
  obtain ⟨hanswer, hafter⟩ := call_alike cfg i e e' hop ha ht' rfl rfl
  refine ⟨e', ⟨rfl, rfl⟩, hanswer, hafter, ?_, h.length.trans (p.length_le_after i n op next e), ?_⟩
  · apply le_of_eq
    exact ((clock_call op).trans ht'.symm).trans (clock_call op).symm
  · rw [taskNames_after ht, mem_drop_append
      (by simpa [System.taskNames] using h.length), h.released]
    exact List.mem_append.symm

theorem Shadows.other (h : Shadows run len p s) {l : Step cfg} (hD : Untouched run i p l)
    (hl : ∀ e, l ≠ .run i e) (hs : p.step l = some q) : Shadows run len q s := by
  have hlen : len ≤ (System.taskNames p).length := by simpa [System.taskNames] using h.length
  rcases Pool.step_cases hs with ⟨j, e, n, op, next, rfl, ht, rfl⟩ | ⟨n, rfl, hn, rfl⟩ | ⟨e, rfl, -⟩
  · rcases hD with rfl | hD
    · exact absurd rfl (hl e)
    obtain ⟨halike, hrel⟩ := hD _ hs
    refine ⟨halike.trans h.alike, h.clock.trans ?_,
      h.length.trans (p.length_le_after j n op next e),
      ?_⟩
    · exact (Int.le_add_of_nonneg_right (Int.natCast_nonneg (Env.elapsed e))).trans
        (clock_call op).ge
    · have hnew : TaskName.releaseNode run.id ∉ (Op.created op).toList := by
        rwa [taskNames_after ht, List.drop_left' (by simp [System.taskNames])] at hrel
      rw [taskNames_after ht, mem_drop_append hlen, ← h.released]
      exact or_iff_left hnew
  · refine ⟨h.alike, h.clock, h.length.trans (by simp), ?_⟩
    have hnames : System.taskNames (⟨p.world, p.tasks ++ [Coroutine.Task.spawn n]⟩ : System cfg) =
        System.taskNames p ++ [n] := by simp [System.taskNames, Coroutine.Task.spawn]
    have hne : TaskName.releaseNode run.id ∉ [n] := by
      rw [List.mem_singleton]
      rintro rfl
      cases hn
    rw [hnames, mem_drop_append hlen, ← h.released]
    exact or_iff_left hne
  · exact hD.elim

end

/-- A POST of the payload arrives and comes to its end, and nothing else touches the run. -/
structure Posted (run : Run) (jsonl : String) (p : System cfg) (ls : List (Step cfg))
    (q : System cfg) : Prop where
  exec : p.exec (.arrive (.request (.complete run.id jsonl)) :: ls) = some q
  untouched : Pool.Obeys (Untouched run p.tasks.length) p
    (.arrive (.request (.complete run.id jsonl)) :: ls)
  ended : q.Ended p.tasks.length

def choicesOf (p : System cfg) (ls : List (Step cfg)) (k : Nat) : Env :=
  (Pool.choices p.tasks.length ls).getD k {}

/-- A POST among other tasks does what it does alone. -/
theorem Posted.ends {run : Run} {jsonl : String} {len : Nat} {p q : System cfg}
    {ls : List (Step cfg)} {s : World × List TaskName} (h : Posted run jsonl p ls q)
    (hs : Shadows run len p s) : ∃ ω : Nat → Env, (∀ k, (ω k).fault = (choicesOf p ls k).fault) ∧
      ∀ Q, Ends cfg p.tasks.length (.request (.complete run.id jsonl))
        (RunController.complete cfg run.id jsonl) ω s.1 s.2 Q →
          ∃ out w c, Q out w c ∧ Shadows run len q (w, c) := by
  obtain ⟨p', hp', hexec⟩ := Option.bind_eq_some_iff.1 h.exec
  have hi : p'.tasks[p.tasks.length]? =
      some (Coroutine.Task.spawn (TaskName.request (.complete run.id jsonl))) := by
    cases hp'
    exact List.getElem?_concat_length
  obtain ⟨ω, hω, hR⟩ := Pool.exec_amid (R := Shadows run len)
    (F := fun e e' => Env.fault e' = Env.fault e ∧ Env.error e' = Env.error e)
    (D := Untouched run p.tasks.length) ({} : Env) ⟨rfl, rfl⟩ (fun _ _ h => h)
    (fun _ _ _ _ _ ht hop hs => hs.after ht hop) (fun _ _ _ _ hD hl hst hs => hs.other hD hl hst)
    hexec (h.untouched.2 _ hp') hi (request_calls cfg (.complete run.id jsonl))
    (hs.other h.untouched.1 (fun _ hl => by cases hl) hp') h.ended
  refine ⟨ω, fun k => ?_, fun Q hQ => ⟨_, _, _, hQ, hR⟩⟩
  have hk := (hω k).1
  rw [Pool.choices] at hk
  exact hk

theorem Shadows.converged_iff {run : Run} {len : Nat} {p : System cfg} {s : World × List TaskName}
    (h : Shadows run len p s) :
    Converged run p.world ((System.taskNames p).drop len) ↔ Converged run s.1 s.2 := by
  have hback : Alike run s.1 p.world :=
    ⟨h.alike.row.symm, h.alike.result.symm, fun key hk => (h.alike.objects key hk).symm⟩
  constructor
  · intro hc
    exact { hc.of_alike hback with released := h.released.1 hc.released }
  · intro hc
    exact { hc.of_alike h.alike with released := h.released.2 hc.released }

/-- After a POST of an accepted payload to a running run, whatever fails in it, and a second POST
without a failure, the run is published exactly when the first did not fail after its commit. -/
theorem converges_iff {p p₁ p₂ : System cfg} {run : Run} {jsonl : String}
    {ls₁ ls₂ : List (Step cfg)} (hg : p.world.db.runs.get run.id = some run)
    (hs : run.status = .running) (ha : Accepted cfg run jsonl) (h₁ : Posted run jsonl p ls₁ p₁)
    (h₂ : Posted run jsonl p₁ ls₂ p₂)
    (hf : ∀ e ∈ Pool.choices p₁.tasks.length ls₂, Env.fault e = .none) :
    Converged run p₂.world ((System.taskNames p₂).drop p.tasks.length) ↔
      Retriable run p.world (choicesOf p ls₁) := by
  have h₀ : Shadows run p.tasks.length p (p.world, []) :=
    ⟨⟨rfl, rfl, fun _ _ => rfl⟩, le_refl _, le_refl _, by
      simp [System.taskNames, List.drop_eq_nil_of_le]⟩
  obtain ⟨ω₁, hω₁, hends₁⟩ := h₁.ends h₀
  obtain ⟨-, w₁, c₁, hq, hR₁⟩ := hends₁ _ (complete_twice hg hs ha)
  obtain ⟨ω₂, hω₂, hends₂⟩ := h₂.ends hR₁
  have hnone : ∀ k, (ω₂ k).fault = .none := fun k => by
    rw [hω₂, choicesOf, List.getD_eq_getElem?_getD]
    cases he : (Pool.choices p₁.tasks.length ls₂)[k]? with
    | none => rfl
    | some e => exact hf e (List.mem_of_getElem? he)
  obtain ⟨-, w₂, c₂, hiff, hR₂⟩ := hends₂ _ (hq ω₂ hnone)
  rw [hR₂.converged_iff, hiff]
  simp only [Retriable, FailsBeforeCommit, hω₁]

theorem untouched_own {run : Run} {i : Nat} {p : System cfg} {ls : List (Step cfg)}
    (h : ∀ l ∈ ls, (∃ n, l = .arrive n) ∨ ∃ e, l = .run i e) : p.Obeys (Untouched run i) ls := by
  induction ls generalizing p with
  | nil => trivial
  | cons l ls ih =>
    refine ⟨?_, fun q _ => ih fun l hl => h l (List.mem_cons_of_mem _ hl)⟩
    rcases h l List.mem_cons_self with ⟨n, rfl⟩ | ⟨e, rfl⟩
    · trivial
    · exact .inl rfl

namespace Sample

/-- A POST as task `i` whose `k`-th call fails. -/
def failing (i k : Nat) : List (Step config) := steps i k ++ [.run i { fault := .before }]

theorem posted {p : System config} {i : Nat} {ls : List (Step config)} (hi : p.tasks.length = i)
    (hls : ∀ l ∈ ls, ∃ e, l = .run i e)
    (h : (p.exec (.arrive (.request (.complete run.id "")) :: ls)).isSome)
    (he : (p.play (.arrive (.request (.complete run.id "")) :: ls)).Ended i) :
    Posted run "" p ls
      (p.play (.arrive (.request (.complete run.id "")) :: ls)) := by
  subst hi
  refine ⟨Pool.exec_play _ _ h, untouched_own fun l hl => ?_, he⟩
  rcases List.mem_cons.1 hl with rfl | hl
  · exact .inl ⟨_, rfl⟩
  · exact .inr (hls l hl)

end Sample

/-- The upload fails, the second POST publishes the run. -/
theorem converges_of_failed_upload :
    let p := Sample.start.play (Sample.running 7)
    let p₁ := p.play (.arrive (.request (.complete 7 "")) :: Sample.failing 5 1)
    let p₂ := p₁.play (.arrive (.request (.complete 7 "")) :: Sample.steps 6 8)
    Converged Sample.run p₂.world ((System.taskNames p₂).drop 5) := by
  intro p p₁ p₂
  have hls : ∀ l ∈ Sample.failing 5 1, ∃ e, l = .run 5 e := by
    simp [Sample.failing, Sample.steps]
  have hls₂ : ∀ l ∈ Sample.steps 6 8, ∃ e, l = .run 6 e := by
    simp [Sample.steps]
  have hg : p.world.db.runs.get 7 = some Sample.run := rfl
  exact (converges_iff hg rfl ⟨rfl, rfl⟩ (Sample.posted rfl hls (by decide) (by decide))
    (Sample.posted rfl hls₂ (by decide) (by decide)) (by decide)).2
    ⟨.inl (.inl ⟨1, by decide, by decide⟩), by decide, rfl⟩

/-- The write of `latest.meta.json` fails: the run is done, the second POST is refused. -/
theorem not_converges : ¬ ∀ (p p₁ p₂ : System Sample.config) (run : Run) (jsonl : String)
    (ls₁ ls₂ : List (Step Sample.config)), System.Reachable Sample.start p →
    p.world.db.runs.get run.id = some run → run.status = .running →
    Accepted Sample.config run jsonl → Posted run jsonl p ls₁ p₁ → Posted run jsonl p₁ ls₂ p₂ →
    (Pool.choices p.tasks.length ls₁).countP (fun e => Env.fault e ≠ .none) = 1 →
    (∀ e ∈ Pool.choices p₁.tasks.length ls₂, Env.fault e = .none) →
    Converged run p₂.world ((System.taskNames p₂).drop p.tasks.length) := by
  intro h
  have hls : ∀ l ∈ Sample.failing 5 4, ∃ e, l = .run 5 e := by
    simp [Sample.failing, Sample.steps]
  have hls₂ : ∀ l ∈ Sample.steps 6 1, ∃ e, l = .run 6 e := by
    simp [Sample.steps]
  have hc := h (Sample.start.play (Sample.running 7)) _ _ Sample.run _ (Sample.failing 5 4)
    (Sample.steps 6 1) (Pool.reach_play _ _ (by decide)) rfl rfl ⟨rfl, rfl⟩
    (Sample.posted rfl hls (by decide) (by decide)) (Sample.posted rfl hls₂ (by decide) (by decide))
    (by decide) (by decide)
  exact absurd hc.released (by decide)

end GrillPlatform
