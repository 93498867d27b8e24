import GrillPlatform.Completion
import GrillPlatform.Leaderboard
import GrillPlatform.Seq.Upsert
import GrillPlatform.Submission

/-! `update_leaderboard_for` as an upsert on the text of `leaderboard.json`, from any leaderboard on
and over any sequence of calls. -/

namespace GrillPlatform
open Binary64 JsonText Seq Coroutine

theorem dictSet_keyed {fields : List (String × Json)} {field : String × Json}
    (hn : (fields.map (·.1)).Nodup) (hf : ∀ f ∈ fields, f.2.Keyed) (hfield : field.2.Keyed) :
    ((dictSet fields field).map (·.1)).Nodup ∧ ∀ f ∈ dictSet fields field, f.2.Keyed := by
  unfold dictSet
  split
  · have hkeys : (fields.map fun f => if f.1 = field.1 then field else f).map (·.1) =
        fields.map (·.1) := by
      rw [List.map_map]
      refine List.map_congr_left fun f _ => ?_
      by_cases hk : f.1 = field.1 <;> simp [hk]
    refine ⟨hkeys ▸ hn, fun f hm => ?_⟩
    obtain ⟨g, hg, rfl⟩ := List.mem_map.1 hm
    by_cases hk : g.1 = field.1
    · rwa [if_pos hk]
    · rw [if_neg hk]
      exact hf g hg
  · rename_i hnew
    constructor
    · rw [List.map_append, List.map_singleton, List.nodup_append]
      refine ⟨hn, List.nodup_singleton _, fun k hk k' hk' => ?_⟩
      rw [List.mem_singleton.1 hk']
      exact fun h => hnew (h ▸ hk)
    · intro f hm
      rcases List.mem_append.1 hm with hm | hm
      · exact hf f hm
      · rwa [List.mem_singleton.1 hm]

theorem dictOf_keyed {pairs : List (String × Json)} (h : ∀ p ∈ pairs, p.2.Keyed) :
    (Json.obj (dictOf pairs)).Keyed := by
  have hfold : ∀ fields : List (String × Json), (fields.map (·.1)).Nodup →
      (∀ f ∈ fields, f.2.Keyed) → ((pairs.foldl dictSet fields).map (·.1)).Nodup ∧
        ∀ f ∈ pairs.foldl dictSet fields, f.2.Keyed := by
    induction pairs with
    | nil => exact fun _ hn hf => ⟨hn, hf⟩
    | cons p pairs ih =>
      intro fields hn hf
      obtain ⟨hn', hf'⟩ := dictSet_keyed hn hf (h p List.mem_cons_self)
      exact ih (fun q hq => h q (List.mem_cons_of_mem p hq)) _ hn' hf'
  obtain ⟨hn, hf⟩ := hfold [] List.nodup_nil fun _ hm => absurd hm List.not_mem_nil
  exact .obj hn hf

theorem readWord_keyed {strict : Bool} {cs rest : List Char} {j : Json}
    (h : readWord strict cs = some (j, rest)) : j.Keyed := by
  obtain ⟨w, hw, hj⟩ := Option.map_eq_some_iff.1 h
  cases hj
  have hm := List.mem_of_find?_eq_some hw
  cases strict <;> simp only [words, Bool.false_eq_true, if_false, if_true, List.cons_append,
    List.nil_append, List.mem_cons, List.not_mem_nil, or_false] at hm
  · rcases hm with rfl | rfl | rfl | rfl | rfl | rfl
    exacts [.null, .bool _, .bool _, .float _, .float _, .float _]
  · rcases hm with rfl | rfl | rfl
    exacts [.null, .bool _, .bool _]

theorem readNumber_keyed {cs rest : List Char} {j : Json}
    (h : readNumber cs = some (j, rest)) : j.Keyed := by
  obtain ⟨⟨m, rest'⟩, -, hj⟩ := Option.bind_eq_some_iff.1 h
  dsimp only at hj
  split at hj <;> cases hj
  · exact .int _
  · exact .float _

theorem readMember_keyed {value : List Char → Option (Json × List Char)}
    (hv : ∀ cs j rest, value cs = some (j, rest) → j.Keyed) (cs : List Char) (f : String × Json)
    (rest : List Char) (h : readMember value cs = some (f, rest)) : f.2.Keyed := by
  obtain ⟨-, -, h⟩ := Option.bind_eq_some_iff.1 h
  obtain ⟨⟨k, cs₁⟩, -, h⟩ := Option.bind_eq_some_iff.1 h
  obtain ⟨-, -, h⟩ := Option.bind_eq_some_iff.1 h
  obtain ⟨⟨j, cs₂⟩, hj, h⟩ := Option.bind_eq_some_iff.1 h
  cases h
  exact hv _ _ _ hj

theorem readValue_keyed {strict : Bool} {fuel : Nat} :
    ∀ (cs : List Char) (j : Json) (rest : List Char),
    readValue strict fuel cs = some (j, rest) → j.Keyed := by
  induction fuel with
  | zero => exact fun _ _ _ h => by cases h
  | succ fuel ih =>
    intro cs j rest h
    rw [readValue] at h
    split at h
    · obtain ⟨p, -, hj⟩ := Option.map_eq_some_iff.1 h
      cases hj
      exact .str _
    · split at h
      · obtain ⟨p, hp, hj⟩ := Option.map_eq_some_iff.1 h
        cases hj
        exact .arr (readSequence_forall ih hp)
      · split at h
        · obtain ⟨p, hp, hj⟩ := Option.map_eq_some_iff.1 h
          cases hj
          exact dictOf_keyed (readSequence_forall (readMember_keyed ih) hp)
        · rcases Option.or_eq_some_iff.1 h with hnumber | ⟨-, hword⟩
          · exact readNumber_keyed hnumber
          · exact readWord_keyed hword

theorem loads_keyed {strict : Bool} {text : String} {j : Json} (h : loads strict text = some j) :
    j.Keyed := by
  obtain ⟨⟨v, rest⟩, hv, h⟩ := Option.bind_eq_some_iff.1 h
  obtain ⟨-, -, h⟩ := Option.bind_eq_some_iff.1 h
  cases h
  exact readValue_keyed _ _ _ hv

theorem keyed_of_iterate {j : Json} {entries : List Json} {e : Json} (hj : j.Keyed)
    (hiter : j.iterate = some entries) (he : e ∈ entries) (hobj : e.isObj = true) : e.Keyed := by
  cases hj with
  | arr h =>
    cases hiter
    exact h e he
  | obj _ _ =>
    cases hiter
    obtain ⟨f, -, rfl⟩ := List.mem_map.1 he
    cases hobj
  | str s =>
    cases hiter
    obtain ⟨c, -, rfl⟩ := List.mem_map.1 he
    cases hobj
  | _ => cases hiter

theorem currentEntries_ok {current : Option String} {entries : List Json}
    (h : currentEntries current = .ok entries) : ∀ e ∈ entries, e.Keyed ∧ e.isObj = true := by
  cases current with
  | none =>
    cases h
    exact fun _ hm => absurd hm List.not_mem_nil
  | some text =>
    rw [currentEntries] at h
    split at h
    · cases h
      exact fun _ hm => absurd hm List.not_mem_nil
    · split at h
      · cases h
      · rename_i j hj
        split at h
        · cases h
        · rename_i entries' hiter
          split at h
          · rename_i hall
            cases h
            intro e he
            have hobj := List.all_eq_true.1 hall e he
            refine ⟨keyed_of_iterate (loads_keyed hj) hiter he hobj, hobj⟩
          · cases h

def fileAfter (stored : Option String) (calls : List LeaderboardCall) :
    Except Exc (Option String) :=
  calls.foldlM (fun current c => (c.text current).map some) stored

def Json.pair (e : Json) : Option (String × String) :=
  match e.get "model", e.get "engine" with
  | some (.str model), some (.str engine) => some (model, engine)
  | _, _ => none

def entriesAfter (entries : List Json) (calls : List LeaderboardCall) : List Json :=
  upserts Json.pair entries (calls.map LeaderboardCall.entry)

theorem pair_entry (c : LeaderboardCall) :
    c.entry.pair = some (c.run.model, c.run.engine.value) := rfl

theorem withoutPair_eq (entries : List Json) (model : String) (engine : Engine) :
    withoutPair entries model engine =
      entries.filter fun e => e.pair ≠ some (model, engine.value) := by
  refine List.filter_congr fun e _ => ?_
  have hiff : (e.hasStr "model" model && e.hasStr "engine" engine.value) =
      decide (e.pair = some (model, engine.value)) := by
    unfold Json.hasStr Json.pair
    split <;> split <;> simp_all
  rw [hiff, decide_not]

section
variable {stored : Option String} {entries : List Json} {calls : List LeaderboardCall}

theorem text_dumps (h : ∀ e ∈ entries, e.Keyed ∧ e.isObj = true) (c : LeaderboardCall) :
    c.text (some (dumps (.arr entries))) =
      .ok (dumps (.arr (upsert Json.pair entries c.entry))) := by
  obtain ⟨back, hcurrent, hview⟩ :=
    currentEntries_dumps (fun e he => (h e he).1) fun e he => (h e he).2
  rw [LeaderboardCall.text, hcurrent, upsert, pair_entry, ← withoutPair_eq,
    ← dumps_withoutPair hview]
  rfl

theorem text_ok (h : currentEntries stored = .ok entries) (c : LeaderboardCall) :
    c.text stored = .ok (dumps (.arr (upsert Json.pair entries c.entry))) := by
  rw [LeaderboardCall.text, h, upsert, pair_entry, ← withoutPair_eq]
  rfl

theorem fileAfter_dumps (h : ∀ e ∈ entries, e.Keyed ∧ e.isObj = true) :
    fileAfter (some (dumps (.arr entries))) calls =
      .ok (some (dumps (.arr (entriesAfter entries calls)))) := by
  induction calls generalizing entries with
  | nil => rfl
  | cons c calls ih =>
    have hnext : ∀ e ∈ upsert Json.pair entries c.entry, e.Keyed ∧ e.isObj = true :=
      forall_upsert h (keyed_call c)
    rw [fileAfter, List.foldlM_cons, text_dumps h c]
    exact ih hnext

theorem fileAfter_ok (h : currentEntries stored = .ok entries) (hne : calls ≠ []) :
    fileAfter stored calls = .ok (some (dumps (.arr (entriesAfter entries calls)))) := by
  obtain ⟨c, calls, rfl⟩ := List.exists_cons_of_ne_nil hne
  have hnext : ∀ e ∈ upsert Json.pair entries c.entry, e.Keyed ∧ e.isObj = true :=
    forall_upsert (currentEntries_ok h) (keyed_call c)
  rw [fileAfter, List.foldlM_cons, text_ok h c]
  exact fileAfter_dumps hnext

theorem currentEntries_finite (h : ∀ e ∈ entries, e.Keyed ∧ e.isObj = true)
    (hf : ∀ e ∈ entries, e.Finite) : currentEntries (some (dumps (.arr entries))) =
    .ok entries := by
  have hloads : loads false (dumps (.arr entries)) = some (.arr entries) := by
    rw [loads_dumps]
    exact reread_finite (.arr fun e he => (h e he).1) (.arr hf)
  have hne : (dumps (.arr entries)).isEmpty = false := by
    simp [dumps, dumpsChars]
  rw [currentEntries, hne, if_neg Bool.false_ne_true, hloads]
  exact if_pos (List.all_eq_true.2 fun e he => (h e he).2)

end

/-- The coroutine stores the entries whose text the call writes. -/
theorem updateLeaderboardFor_exec {cfg : Config} {w : World} {ω : Nat → Env}
    {entries : List Json} (hs : w.s3 .leaderboard = some (.leaderboard entries))
    (h : ∀ e ∈ entries, e.Keyed ∧ e.isObj = true) {c : LeaderboardCall}
    (hended : c.run.endedAt ≠ none) (hf : (ω 0).fault = .none ∧ (ω 1).fault = .none) :
    let out :=
      (updateLeaderboardFor c.run c.result c.perConcurrency).exec (S := sig) (served cfg) ω w
    out.1 = .ok () ∧ ∃ entries', out.2.1.s3 .leaderboard = some (.leaderboard entries') ∧
      c.text (some (dumps (.arr entries))) = .ok (dumps (.arr entries')) := by
  intro out
  obtain ⟨t, ht⟩ := Option.ne_none_iff_exists'.1 hended
  have hall : entries.all Json.isObj = true := List.all_eq_true.2 fun e he => (h e he).2
  have hread : (s3 (.getObject .leaderboard)).exec (S := sig) (served cfg) ω w =
      (.ok (some (.leaderboard entries)), { w with clock := w.clock + (ω 0).elapsed },
        fun k => ω (k + 1)) := by
    rw [exec_s3]
    simp [S3Call.run, Env.guard, hf.1, hs]
  have hdecoded : (Prog.ofExcept (leaderboardEntries (some (.leaderboard entries))) :
      Async (List Json)) = .pure entries := by
    rw [leaderboardEntries, if_pos hall]
    rfl
  -- what is written is the upsert of the entry
  have hwritten : withoutPair entries c.run.model c.run.engine ++
      [leaderboardEntry c.run c.result c.perConcurrency t] = upsert Json.pair entries c.entry := by
    rw [upsert, pair_entry, ← withoutPair_eq, LeaderboardCall.entry, ht]
    rfl
  have hexec : out = (s3 (.putObject .leaderboard
      (.leaderboard (upsert Json.pair entries c.entry)))).exec (S := sig) (served cfg)
      (fun k => ω (k + 1)) { w with clock := w.clock + (ω 0).elapsed } := by
    rw [← hwritten]
    show (updateLeaderboardFor c.run c.result c.perConcurrency).exec (served cfg) ω w = _
    rw [updateLeaderboardFor_of_ended ht, Prog.exec_bind_of_ok hread, hdecoded]
    rfl
  rw [hexec, exec_s3]
  refine ⟨?_, upsert Json.pair entries c.entry, ?_, text_dumps h c⟩ <;>
    simp [S3Call.run, Env.guard, hf.2]

/-! ## What the calls leave -/

def SamePair (c d : LeaderboardCall) : Prop := c.entry.pair = d.entry.pair

/-- Each pair called for has one entry, that of its last call; the others are the initial ones. -/
structure Upserted (entries : List Json) (calls : List LeaderboardCall) (final : List Json) :
    Prop where
  last : ∀ before c after, calls = before ++ c :: after → (∀ d ∈ after, ¬ SamePair d c) →
    final.filter (fun e => e.pair = some (c.run.model, c.run.engine.value)) = [c.entry]
  kept : final.filter (fun e => ∀ c ∈ calls, e.pair ≠ some (c.run.model, c.run.engine.value)) =
    entries.filter fun e => ∀ c ∈ calls, e.pair ≠ some (c.run.model, c.run.engine.value)

theorem upserted_entriesAfter (entries : List Json) (calls : List LeaderboardCall) :
    Upserted entries calls (entriesAfter entries calls) where
  last before c after hsplit hlast := by
    rw [entriesAfter, hsplit, List.map_append, List.map_cons]
    have hother : ∀ e ∈ after.map LeaderboardCall.entry, e.pair ≠ c.entry.pair := by
      intro e he
      obtain ⟨d, hd, rfl⟩ := List.mem_map.1 he
      exact hlast d hd
    exact filter_upserts_last hother
  kept := by
    refine filter_upserts fun e he y hy => ?_
    obtain ⟨c, hc, rfl⟩ := List.mem_map.1 he
    exact decide_eq_false fun hnone => hnone c hc hy

theorem entriesAfter_append (entries : List Json) (calls calls' : List LeaderboardCall) :
    entriesAfter entries (calls ++ calls') = entriesAfter (entriesAfter entries calls) calls' := by
  rw [entriesAfter, List.map_append, upserts_append]
  rfl

theorem entriesAfter_again {entries : List Json} {before : List LeaderboardCall}
    {c c' : LeaderboardCall} (h : c'.entry = c.entry) :
    entriesAfter entries (before ++ [c] ++ [c']) = entriesAfter entries (before ++ [c]) := by
  simp only [entriesAfter, List.map_append, List.map_singleton, h, upserts_append,
    upserts_singleton, upsert_again]

theorem entriesAfter_swap {entries : List Json} {before after : List LeaderboardCall}
    {c d : LeaderboardCall} (hne : ¬ SamePair c d) :
    (entriesAfter entries (before ++ d :: c :: after)).Perm
      (entriesAfter entries (before ++ c :: d :: after)) := by
  rw [entriesAfter_append, entriesAfter_append]
  have hpair : d.entry.pair ≠ c.entry.pair := fun h => hne h.symm
  exact upserts_perm (upsert_swap hpair) _

theorem entry_of_ended {c : LeaderboardCall} (h : c.run.endedAt ≠ none) (now : Time) :
    ({ c with now := now } : LeaderboardCall).entry = c.entry := by
  obtain ⟨t, ht⟩ := Option.ne_none_iff_exists'.1 h
  simp [LeaderboardCall.entry, ht]

theorem leaderboard_upserts {stored : Option String} {entries : List Json}
    (h : currentEntries stored = .ok entries) (calls : List LeaderboardCall) :
    let final := entriesAfter entries calls
    (∃ file, fileAfter stored calls = .ok file ∧
      (calls ≠ [] → file = some (dumps (.arr final))) ∧
      ((∀ e ∈ entries, e.Finite) → (∀ c ∈ calls, c.entry.Finite) →
        currentEntries file = .ok final)) ∧
    Upserted entries calls final ∧
    (∀ before c now, calls = before ++ [c] → c.run.endedAt ≠ none →
      fileAfter stored (calls ++ [{ c with now := now }]) = fileAfter stored calls) ∧
    ∀ before c d after, calls = before ++ c :: d :: after → ¬ SamePair c d →
      ∃ swapped, fileAfter stored (before ++ d :: c :: after) = .ok (some (dumps (.arr swapped))) ∧
        swapped.Perm final := by
  intro final
  refine ⟨?_, upserted_entriesAfter entries calls, ?_, ?_⟩
  · by_cases hne : calls = []
    · subst hne
      exact ⟨stored, rfl, fun hne => absurd rfl hne, fun _ _ => h⟩
    · refine ⟨_, fileAfter_ok h hne, fun _ => rfl, fun hf hc => ?_⟩
      refine currentEntries_finite (forall_upserts (currentEntries_ok h) ?_) (forall_upserts hf ?_)
      · exact List.forall_mem_map.2 fun c _ => keyed_call c
      · exact List.forall_mem_map.2 hc
  · rintro before c now rfl hended
    rw [fileAfter_ok h (by simp), fileAfter_ok h (by simp),
      entriesAfter_again (entry_of_ended hended now)]
  · rintro before c d after rfl hpair
    exact ⟨_, fileAfter_ok h (by simp), entriesAfter_swap hpair⟩

def staleEntry : Json :=
  .obj [("model", .str benched.model), ("engine", .str "vllm"), ("n_requests", .int 3)]

def otherEntry : Json := .obj [("model", .str "other"), ("engine", .str "vllm")]

/-- A call for the pair of the stale entry, its run ended. -/
def freshCall : LeaderboardCall where
  run := { benched with endedAt := some 5 }
  result := ⟨0, benched.model, benched.engine.value, .L40S, unserved⟩
  perConcurrency := []
  dicts := nofun
  now := 6

theorem leaderboard_upserts_of_stale :
    let stored := some (dumps (.arr [staleEntry, otherEntry]))
    fileAfter stored [freshCall] = .ok (some (dumps (.arr [otherEntry, freshCall.entry]))) ∧
      fileAfter stored [freshCall, { freshCall with now := 7 }] = fileAfter stored [freshCall] := by
  intro stored
  have hkeyed : ∀ e ∈ [staleEntry, otherEntry], e.Keyed ∧ e.isObj = true :=
    List.forall_mem_cons.2
      ⟨⟨.obj (by simp) (by simp [Json.Keyed.str, Json.Keyed.int]), rfl⟩,
        List.forall_mem_singleton.2 ⟨.obj (by simp) (by simp [Json.Keyed.str]), rfl⟩⟩
  have hfinite : ∀ e ∈ [staleEntry, otherEntry], e.Finite :=
    List.forall_mem_cons.2
      ⟨.obj (by simp [Json.Finite.str, Json.Finite.int]),
        List.forall_mem_singleton.2 (.obj (by simp [Json.Finite.str]))⟩
  obtain ⟨⟨file, hfile, htext, -⟩, -, hagain, -⟩ :=
    leaderboard_upserts (currentEntries_finite hkeyed hfinite) [freshCall]
  exact ⟨htext (List.cons_ne_nil _ _) ▸ hfile, hagain [] freshCall 7 rfl (by decide)⟩

end GrillPlatform
