import GrillPlatform.Dumps
import GrillPlatform.Storage

/-! The text of `leaderboard.json` over a sequence of completed runs, and what the site reads. -/

namespace GrillPlatform
open Binary64

/-- The metrics that go into an entry. -/
def Metrics.published (m : Metrics) : List PyFloat :=
  [m.successRate, m.ttftMeanS, m.ttftMedianS, m.ttftP95S, m.tpotMeanS, m.e2eMeanS, m.e2eP95S,
    m.tokensPerSecondMean, m.totalTokensPerSecond, m.requestsPerSecond]

def Metrics.Finite (m : Metrics) : Prop := ∀ x ∈ m.published, isFinite x = true

/-- What a `for` loop over the decoded text runs over. -/
def Json.iterate : Json → Option (List Json)
  | .arr xs => some xs
  | .obj fields => some (fields.map fun f => .str f.1)
  | .str s => some (s.toList.map fun c => .str (String.singleton c))
  | _ => none

/-- `json.loads(current) if current else []`, its items being dictionaries. -/
def currentEntries : Option String → Except Exc (List Json)
  | none => .ok []
  | some text =>
    if text.isEmpty then .ok []
    else match loads false text with
      | none => .error (.valueError "JSONDecodeError")
      | some j =>
        match j.iterate with
        | none => .error (.other "TypeError")
        | some entries =>
          if entries.all Json.isObj then .ok entries else .error (.other "AttributeError")

/-- The keys of every object are different. -/
inductive Json.Keyed : Json → Prop
  | null : Json.Keyed .null
  | bool (b : Bool) : Json.Keyed (.bool b)
  | int (n : Int) : Json.Keyed (.int n)
  | float (x : PyFloat) : Json.Keyed (.float x)
  | str (s : String) : Json.Keyed (.str s)
  | arr {xs : List Json} (h : ∀ x ∈ xs, x.Keyed) : Json.Keyed (.arr xs)
  | obj {fields : List (String × Json)} (hk : (fields.map (·.1)).Nodup)
      (h : ∀ f ∈ fields, f.2.Keyed) : Json.Keyed (.obj fields)

/-- A call of `update_leaderboard_for`, and the clock if it is read. The breakdown is a list of
dictionaries. -/
structure LeaderboardCall where
  run : Run
  result : Result
  perConcurrency : List Json
  dicts : ∀ e ∈ perConcurrency, e.Keyed
  now : Time

namespace LeaderboardCall

def entry (c : LeaderboardCall) : Json :=
  leaderboardEntry c.run c.result c.perConcurrency (c.run.endedAt.getD c.now)

def text (current : Option String) (c : LeaderboardCall) : Except Exc String := do
  let entries ← currentEntries current
  return dumps (.arr (withoutPair entries c.run.model c.run.engine ++ [c.entry]))

end LeaderboardCall

theorem keyed_breakdownEntry (level : Int) (m : Metrics) : (breakdownEntry level m).Keyed :=
  .obj (by simp) (by simp [Json.Keyed.int, Json.Keyed.float])

/-- A call with the breakdown of `aggregate_per_concurrency`: the levels and their metrics. -/
structure LeaderboardUpdate where
  run : Run
  result : Result
  levels : List (Int × Metrics)
  now : Time

namespace LeaderboardUpdate

def call (u : LeaderboardUpdate) : LeaderboardCall where
  run := u.run
  result := u.result
  perConcurrency := u.levels.map fun l => breakdownEntry l.1 l.2
  dicts := List.forall_mem_map.2 fun l _ => keyed_breakdownEntry l.1 l.2
  now := u.now

def entry (u : LeaderboardUpdate) : Json := u.call.entry

/-- The metrics of the run and of every level are finite. -/
def Finite (u : LeaderboardUpdate) : Prop :=
  u.result.metrics.Finite ∧ ∀ l ∈ u.levels, l.2.Finite

def SamePair (u v : LeaderboardUpdate) : Prop :=
  u.run.model = v.run.model ∧ u.run.engine.value = v.run.engine.value

end LeaderboardUpdate

def withUpdate (entries : List Json) (u : LeaderboardUpdate) : List Json :=
  withoutPair entries u.run.model u.run.engine ++ [u.entry]

def updatedText (current : Option String) (u : LeaderboardUpdate) : Except Exc String :=
  u.call.text current

def leaderboardText (updates : List LeaderboardUpdate) : Except Exc (Option String) :=
  updates.foldlM (fun current u => (updatedText current u).map some) none

def leaderboardAfter (updates : List LeaderboardUpdate) : List Json := updates.foldl withUpdate []

inductive Json.Finite : Json → Prop
  | null : Json.Finite .null
  | bool (b : Bool) : Json.Finite (.bool b)
  | int (n : Int) : Json.Finite (.int n)
  | float {x : PyFloat} (h : isFinite x = true) : Json.Finite (.float x)
  | str (s : String) : Json.Finite (.str s)
  | arr {xs : List Json} (h : ∀ x ∈ xs, x.Finite) : Json.Finite (.arr xs)
  | obj {fields : List (String × Json)} (h : ∀ f ∈ fields, f.2.Finite) : Json.Finite (.obj fields)

theorem foldl_dictSet (pairs acc : List (String × Json)) (h : ((acc ++ pairs).map (·.1)).Nodup) :
    pairs.foldl dictSet acc = acc ++ pairs := by
  induction pairs generalizing acc with
  | nil => rw [List.foldl_nil, List.append_nil]
  | cons p pairs ih =>
    have hp : p.1 ∉ acc.map (·.1) := by
      intro hmem
      rw [List.map_append, List.map_cons, List.nodup_append] at h
      exact h.2.2 _ hmem _ List.mem_cons_self rfl
    rw [List.foldl_cons, dictSet, if_neg hp, ih, List.append_assoc, List.singleton_append]
    rwa [List.append_assoc, List.singleton_append]

theorem dictOf_nodup {pairs : List (String × Json)} (h : (pairs.map (·.1)).Nodup) :
    dictOf pairs = pairs := foldl_dictSet pairs [] h

section
variable {α β γ : Type} {f : α → Option β} {xs : List α}

theorem mapM_image {g : α → γ} {k : β → γ} (h : ∀ x ∈ xs, ∃ y, f x = some y ∧ k y = g x) :
    ∃ ys, xs.mapM f = some ys ∧ ys.map k = xs.map g := by
  induction xs with
  | nil => exact ⟨[], rfl, rfl⟩
  | cons x xs ih =>
    obtain ⟨y, hy, hg⟩ := h x List.mem_cons_self
    obtain ⟨ys, hys, hgs⟩ := ih fun z hz => h z (List.mem_cons_of_mem x hz)
    exact ⟨y :: ys, by rw [List.mapM_cons, hy, hys]; rfl,
      by rw [List.map_cons, hg, hgs, List.map_cons]⟩

theorem forall_of_mapM {ys : List β} (h : xs.mapM f = some ys) : ∀ x ∈ xs, ∃ y, f x = some y := by
  induction xs generalizing ys with
  | nil => exact fun x hx => absurd hx List.not_mem_nil
  | cons x xs ih =>
    rw [List.mapM_cons] at h
    obtain ⟨y, hy, h⟩ := Option.bind_eq_some_iff.1 h
    obtain ⟨zs, hzs, -⟩ := Option.bind_eq_some_iff.1 h
    intro z hz
    rcases List.mem_cons.1 hz with rfl | hz
    · exact ⟨y, hy⟩
    · exact ih hzs z hz

end

theorem reread_finite {strict : Bool} {j : Json} (hk : j.Keyed) (hf : j.Finite) :
    reread (floatBack strict) j = some j := by
  induction j using Json.induct with
  | null => rfl
  | bool b => rfl
  | int n => rfl
  | str s => rfl
  | float x =>
    cases hf with
    | float h => rw [reread, floatBack, if_pos h, Option.map_some]
  | arr xs ih =>
    cases hk with
    | arr hk =>
      cases hf with
      | arr hf =>
        obtain ⟨ys, hys, hid⟩ := mapM_image (g := id) (k := id)
          fun x hx => ⟨x, ih x hx (hk x hx) (hf x hx), rfl⟩
        rw [List.map_id, List.map_id] at hid
        rw [reread, rereadItems_eq, hys, hid, Option.map_some]
  | obj fields ih =>
    cases hk with
    | obj hkeys hk =>
      cases hf with
      | obj hf =>
        have hfield (f : String × Json) (hmem : f ∈ fields) :
            (reread (floatBack strict) f.2).map (f.1, ·) = some f := by
          rw [ih f hmem (hk f hmem) (hf f hmem), Option.map_some]
        obtain ⟨ys, hys, hid⟩ := mapM_image (g := id) (k := id)
          fun f hmem => ⟨f, hfield f hmem, rfl⟩
        rw [List.map_id, List.map_id] at hid
        rw [reread, rereadFields_eq, hys, hid, Option.map_some, dictOf_nodup hkeys]

theorem finite_of_reread (j : Json) :
    ∀ {k : Json}, reread (floatBack true) j = some k → j.Finite := by
  induction j using Json.induct with
  | null => exact fun _ => .null
  | bool b => exact fun _ => .bool b
  | int n => exact fun _ => .int n
  | str s => exact fun _ => .str s
  | float x =>
    intro k h
    obtain ⟨y, hy, -⟩ := Option.map_eq_some_iff.1 h
    by_cases hx : isFinite x = true
    · exact .float hx
    · rw [floatBack, if_neg hx] at hy
      cases hy
  | arr xs ih =>
    intro k h
    rw [reread, rereadItems_eq] at h
    obtain ⟨ys, hys, -⟩ := Option.map_eq_some_iff.1 h
    refine .arr fun x hx => ?_
    obtain ⟨y, hy⟩ := forall_of_mapM hys x hx
    exact ih x hx hy
  | obj fields ih =>
    intro k h
    rw [reread, rereadFields_eq] at h
    obtain ⟨ys, hys, -⟩ := Option.map_eq_some_iff.1 h
    refine .obj fun f hf => ?_
    obtain ⟨y, hy⟩ := forall_of_mapM hys f hf
    obtain ⟨v, hv, -⟩ := Option.map_eq_some_iff.1 hy
    exact ih f hf hv

def Json.asStr : Json → Option String
  | .str s => some s
  | _ => none

/-- The keys of a dictionary with the strings under them. -/
def Json.strings : Json → List (String × Option String)
  | .obj fields => fields.map fun f => (f.1, f.2.asStr)
  | _ => []

/-- All that is written of a value or asked of an entry. -/
def Json.view (j : Json) : List Char × Option String × Bool × List (String × Option String) :=
  (dumpsChars j, j.asStr, j.isObj, j.strings)

theorem hasStr_eq (e : Json) (k s : String) :
    e.hasStr k s = decide (e.strings.lookup k = some (some s)) := by
  cases e with
  | obj fields =>
    rw [Json.hasStr, Json.get, Json.strings]
    induction fields with
    | nil => rfl
    | cons f fields ih =>
      rw [List.map_cons, List.lookup_cons, List.lookup_cons]
      cases k == f.1 with
      | false => exact ih
      | true =>
        cases hv : f.2 with
        | str t => simp [Json.asStr]
        | null | bool | int | float | arr | obj => rfl
  | null | bool | int | float | str | arr => rfl

theorem view_nan {x : PyFloat} (hf : isFinite x = false) (hx : isNaN x = true) :
    (Json.float nan).view = (Json.float x).view := by
  have htext : floatText x = ['N', 'a', 'N'] := by
    rw [floatText, hf, hx]
    rfl
  rw [Json.view, Json.view, dumpsChars, dumpsChars, htext]
  rfl

theorem reread_view {j : Json} (hk : j.Keyed) :
    ∃ k, reread (floatBack false) j = some k ∧ k.view = j.view := by
  induction j using Json.induct with
  | null => exact ⟨_, rfl, rfl⟩
  | bool b => exact ⟨_, rfl, rfl⟩
  | int n => exact ⟨_, rfl, rfl⟩
  | str s => exact ⟨_, rfl, rfl⟩
  | float x =>
    -- only the NaNs come back changed, and all of them are written alike
    rw [reread, floatBack]
    cases hf : isFinite x with
    | true => exact ⟨_, rfl, rfl⟩
    | false =>
      refine ⟨_, rfl, ?_⟩
      cases hnan : isNaN x with
      | true => exact view_nan hf hnan
      | false => rfl
  | arr xs ih =>
    cases hk with
    | arr hk =>
      obtain ⟨ys, hys, hview⟩ := mapM_image fun x hx => ih x hx (hk x hx)
      have htexts : ys.map dumpsChars = xs.map dumpsChars := by
        have h := congrArg (List.map Prod.fst) hview
        rwa [List.map_map, List.map_map] at h
      refine ⟨.arr ys, by rw [reread, rereadItems_eq, hys, Option.map_some], ?_⟩
      rw [Json.view, Json.view, dumpsChars, dumpsChars, dumpsItems_eq, dumpsItems_eq, htexts]
      rfl
  | obj fields ih =>
    cases hk with
    | obj hkeys hk =>
      -- the names of the fields stay, so no field overrides another
      have hfield (f : String × Json) (hmem : f ∈ fields) :
          ∃ f', (reread (floatBack false) f.2).map (f.1, ·) = some f' ∧
            (f'.1, f'.2.view) = (f.1, f.2.view) := by
        obtain ⟨v, hv, hview⟩ := ih f hmem (hk f hmem)
        exact ⟨(f.1, v), by rw [hv, Option.map_some], by rw [hview]⟩
      obtain ⟨ys, hys, hview⟩ := mapM_image (g := fun f : String × Json => (f.1, f.2.view)) hfield
      have hnames : ys.map (·.1) = fields.map (·.1) := by
        have h := congrArg (List.map Prod.fst) hview
        rwa [List.map_map, List.map_map] at h
      have htexts : ys.map fieldText = fields.map fieldText := by
        have h :=
          congrArg (List.map fun p => JsonText.quote p.1.toList ++ (':' :: ' ' :: p.2.1)) hview
        rwa [List.map_map, List.map_map] at h
      have hstrings :
          ys.map (fun f => (f.1, f.2.asStr)) = fields.map fun f => (f.1, f.2.asStr) := by
        have h := congrArg (List.map fun p => (p.1, p.2.2.1)) hview
        rwa [List.map_map, List.map_map] at h
      refine ⟨.obj ys, ?_, ?_⟩
      · rw [reread, rereadFields_eq, hys, Option.map_some, dictOf_nodup (hnames ▸ hkeys)]
      · rw [Json.view, Json.view, dumpsChars, dumpsChars, dumpsFields_eq, dumpsFields_eq, htexts,
          Json.strings, Json.strings, hstrings]
        rfl

section
variable {entries : List Json}

theorem loads_entries (hk : ∀ e ∈ entries, e.Keyed) : ∃ back,
    loads false (dumps (.arr entries)) = some (.arr back) ∧
      back.map Json.view = entries.map Json.view := by
  obtain ⟨ys, hys, hview⟩ := mapM_image fun e he => reread_view (hk e he)
  exact ⟨ys, by rw [loads_dumps, reread, rereadItems_eq, hys, Option.map_some], hview⟩

theorem filter_view {back : List Json} (h : back.map Json.view = entries.map Json.view)
    (model : String) (engine : Engine) :
    (withoutPair back model engine).map Json.view =
    (withoutPair entries model engine).map Json.view := by
  have hfilter (es : List Json) : (withoutPair es model engine).map Json.view =
      (es.map Json.view).filter fun v => !(decide (v.2.2.2.lookup "model" = some (some model)) &&
        decide (v.2.2.2.lookup "engine" = some (some engine.value))) := by
    rw [List.filter_map, withoutPair]
    refine congrArg (List.map Json.view) (List.filter_congr fun e _ => ?_)
    rw [hasStr_eq, hasStr_eq]
    rfl
  rw [hfilter, hfilter, h]

theorem dumps_arr_congr {back : List Json} (h : back.map Json.view = entries.map Json.view) :
    dumps (.arr back) = dumps (.arr entries) := by
  have htexts : back.map dumpsChars = entries.map dumpsChars := by
    have h' := congrArg (List.map Prod.fst) h
    rwa [List.map_map, List.map_map] at h'
  rw [dumps, dumps, dumpsChars, dumpsChars, dumpsItems_eq, dumpsItems_eq, htexts]

theorem currentEntries_dumps (hk : ∀ e ∈ entries, e.Keyed) (hobj : ∀ e ∈ entries, e.isObj = true) :
    ∃ back, currentEntries (some (dumps (.arr entries))) = .ok back ∧
      back.map Json.view = entries.map Json.view := by
  obtain ⟨back, hback, hview⟩ := loads_entries hk
  have hne : (dumps (.arr entries)).isEmpty = false := by
    simp [dumps, dumpsChars]
  have hall : back.all Json.isObj = true := by
    have h := congrArg (List.map fun v => v.2.2.1) hview
    rw [List.map_map, List.map_map] at h
    rw [List.all_eq_true]
    intro e he
    obtain ⟨e', he', heq⟩ := List.mem_map.1 (h ▸ List.mem_map_of_mem he)
    exact heq.symm.trans (hobj e' he')
  refine ⟨back, ?_, hview⟩
  rw [currentEntries, hne, if_neg Bool.false_ne_true, hback]
  exact if_pos hall

theorem dumps_withoutPair {back : List Json} (h : back.map Json.view = entries.map Json.view)
    (model : String) (engine : Engine) (e : Json) :
    dumps (.arr (withoutPair back model engine ++ [e])) =
      dumps (.arr (withoutPair entries model engine ++ [e])) := by
  apply dumps_arr_congr
  rw [List.map_append, List.map_append, filter_view h]

theorem updatedText_dumps (hk : ∀ e ∈ entries, e.Keyed) (hobj : ∀ e ∈ entries, e.isObj = true)
    (u : LeaderboardUpdate) :
    updatedText (some (dumps (.arr entries))) u = .ok (dumps (.arr (withUpdate entries u))) := by
  obtain ⟨back, hcurrent, hview⟩ := currentEntries_dumps hk hobj
  rw [updatedText, LeaderboardCall.text, hcurrent, withUpdate, ← dumps_withoutPair hview]
  rfl

end

/-! ## The entries of a history -/

theorem keyed_leaderboardEntry (run : Run) (result : Result) {perConcurrency : List Json} (t : Time)
    (h : ∀ e ∈ perConcurrency, e.Keyed) : (leaderboardEntry run result perConcurrency t).Keyed :=
  .obj (by simp) (by simp [Json.Keyed.int, Json.Keyed.float, Json.Keyed.str, Json.Keyed.arr h])

theorem keyed_call (c : LeaderboardCall) : c.entry.Keyed ∧ c.entry.isObj = true :=
  ⟨keyed_leaderboardEntry _ _ _ c.dicts, rfl⟩

theorem finite_int (n : Int) : (Json.int n).Finite ↔ True := ⟨fun _ => trivial, fun _ => .int n⟩

theorem finite_str (s : String) : (Json.str s).Finite ↔ True := ⟨fun _ => trivial, fun _ => .str s⟩

theorem finite_float (x : PyFloat) : (Json.float x).Finite ↔ isFinite x = true :=
  ⟨fun h => by cases h; assumption, .float⟩

theorem finite_arr (xs : List Json) : (Json.arr xs).Finite ↔ ∀ x ∈ xs, x.Finite :=
  ⟨fun h => by cases h; assumption, .arr⟩

theorem finite_obj (fields : List (String × Json)) :
    (Json.obj fields).Finite ↔ ∀ f ∈ fields, f.2.Finite :=
  ⟨fun h => by cases h; assumption, .obj⟩

theorem finite_breakdownEntry (level : Int) (m : Metrics) :
    (breakdownEntry level m).Finite ↔ m.Finite := by
  simp [breakdownEntry, finite_obj, finite_int, finite_float, Metrics.Finite, Metrics.published]

theorem finite_entry (u : LeaderboardUpdate) : u.entry.Finite ↔ u.Finite := by
  have hlevels : (Json.arr (u.levels.map fun l => breakdownEntry l.1 l.2)).Finite ↔
      ∀ l ∈ u.levels, l.2.Finite := by
    simp only [finite_arr, List.forall_mem_map, finite_breakdownEntry]
  rw [LeaderboardUpdate.entry, LeaderboardCall.entry, LeaderboardUpdate.call, leaderboardEntry,
    finite_obj, LeaderboardUpdate.Finite, Metrics.Finite, Metrics.published]
  simp only [List.forall_mem_cons, finite_int, finite_str, finite_float, hlevels,
    true_and, and_true, List.not_mem_nil, false_implies, implies_true]
  tauto

theorem kept_iff (u w : LeaderboardUpdate) :
    (!(u.entry.hasStr "model" w.run.model && u.entry.hasStr "engine" w.run.engine.value)) = true ↔
      ¬ w.SamePair u := by
  rw [LeaderboardUpdate.entry, LeaderboardCall.entry, hasStr_model, hasStr_engine,
    Bool.not_eq_true', Bool.and_eq_false_iff, decide_eq_false_iff_not, decide_eq_false_iff_not,
    LeaderboardUpdate.SamePair, not_and_or, eq_comm, eq_comm (a := w.run.engine.value)]
  rfl

theorem leaderboardAfter_append (updates : List LeaderboardUpdate) (u : LeaderboardUpdate) :
    leaderboardAfter (updates ++ [u]) = withUpdate (leaderboardAfter updates) u := by
  rw [leaderboardAfter, List.foldl_append]
  rfl

theorem mem_leaderboardAfter {updates : List LeaderboardUpdate} {e : Json} :
    e ∈ leaderboardAfter updates ↔ ∃ before u after, updates = before ++ u :: after ∧
      (∀ v ∈ after, ¬ v.SamePair u) ∧ e = u.entry := by
  induction updates using List.reverseRecOn generalizing e with
  | nil => simp [leaderboardAfter]
  | append_singleton updates w ih =>
    rw [leaderboardAfter_append, withUpdate, List.mem_append, List.mem_singleton, withoutPair,
      List.mem_filter, ih]
    constructor
    · rintro (⟨⟨before, u, after, rfl, hlast, rfl⟩, hpair⟩ | rfl)
      · refine ⟨before, u, after ++ [w], by simp, ?_, rfl⟩
        intro v hv
        rcases List.mem_append.1 hv with hv | hv
        · exact hlast v hv
        · rw [List.mem_singleton.1 hv]
          exact (kept_iff u w).1 hpair
      · exact ⟨updates, w, [], rfl, fun v hv => absurd hv List.not_mem_nil, rfl⟩
    · rintro ⟨before, u, after, hsplit, hlast, rfl⟩
      rcases List.eq_nil_or_concat after with rfl | ⟨after, v, rfl⟩
      · obtain ⟨-, hw⟩ := List.append_inj' hsplit rfl
        cases hw
        exact .inr rfl
      · rw [List.concat_eq_append] at hsplit hlast
        rw [← List.cons_append, ← List.append_assoc] at hsplit
        obtain ⟨hinit, hw⟩ := List.append_inj' hsplit rfl
        cases hw
        refine .inl ⟨⟨before, u, after, hinit, ?_, rfl⟩, ?_⟩
        · exact fun v' hv => hlast v' (List.mem_append_left _ hv)
        · exact (kept_iff u w).2 (hlast w (List.mem_append_right _ List.mem_cons_self))

theorem isObj_leaderboardAfter {updates : List LeaderboardUpdate} {e : Json}
    (h : e ∈ leaderboardAfter updates) : e.isObj = true := by
  obtain ⟨_, u, _, -, -, rfl⟩ := mem_leaderboardAfter.1 h
  rfl

theorem keyed_leaderboardAfter {updates : List LeaderboardUpdate} {e : Json}
    (h : e ∈ leaderboardAfter updates) : e.Keyed := by
  obtain ⟨_, u, _, -, -, rfl⟩ := mem_leaderboardAfter.1 h
  exact (keyed_call u.call).1

theorem leaderboardText_append (updates : List LeaderboardUpdate) (u : LeaderboardUpdate) :
    leaderboardText (updates ++ [u]) =
      (leaderboardText updates).bind fun current => (updatedText current u).map some := by
  rw [leaderboardText, List.foldlM_append]
  simp only [List.foldlM_cons, List.foldlM_nil, bind_pure]
  rfl

theorem leaderboardText_eq (updates : List LeaderboardUpdate) (u : LeaderboardUpdate) :
    leaderboardText (updates ++ [u]) =
      .ok (some (dumps (.arr (leaderboardAfter (updates ++ [u]))))) := by
  induction updates using List.reverseRecOn generalizing u with
  | nil => rfl
  | append_singleton updates w ih =>
    have hu := @updatedText_dumps (leaderboardAfter (updates ++ [w]))
      (fun e => keyed_leaderboardAfter) (fun e => isObj_leaderboardAfter) u
    rw [leaderboardText_append, ih w, leaderboardAfter_append (updates ++ [w])]
    exact congrArg (Except.map some) hu

theorem finite_of_loads {updates : List LeaderboardUpdate} {u : LeaderboardUpdate} {text : String}
    (htext : leaderboardText (updates ++ [u]) = .ok (some text)) {j : Json}
    (hloads : loads true text = some j) {e : Json} (he : e ∈ leaderboardAfter (updates ++ [u])) :
    e.Finite := by
  cases (leaderboardText_eq updates u).symm.trans htext
  rw [loads_dumps] at hloads
  exact (finite_arr _).1 (finite_of_reread _ hloads) e he

/-- The text is JSON that the site decodes to the entries exactly when no pair's last update has
left a metric that is not finite. -/
theorem leaderboard_loadable_iff (updates : List LeaderboardUpdate) (u : LeaderboardUpdate) :
    ∃ text, leaderboardText (updates ++ [u]) = .ok (some text) ∧
      (loads true text = some (.arr (leaderboardAfter (updates ++ [u]))) ↔
        ∀ before v after, updates ++ [u] = before ++ v :: after →
          (∀ later ∈ after, ¬ later.SamePair v) → v.Finite) := by
  refine ⟨_, leaderboardText_eq updates u, ?_⟩
  constructor
  · intro h before v after hsplit hlast
    have hentry := mem_leaderboardAfter.2 ⟨before, v, after, hsplit, hlast, rfl⟩
    exact (finite_entry v).1 (finite_of_loads (leaderboardText_eq updates u) h hentry)
  · intro h
    rw [loads_dumps]
    refine reread_finite (.arr fun e => keyed_leaderboardAfter) (.arr fun e he => ?_)
    obtain ⟨before, v, after, hsplit, hlast, rfl⟩ := mem_leaderboardAfter.1 he
    exact (finite_entry v).2 (h before v after hsplit hlast)

def benched : Run :=
  { id := 0, status := .done, model := "mistralai/Mistral-7B", modelSizeB := 7, engine := .vllm,
    gpuTypeRequired := .L40S, scenarioPath := "simple.yaml", createdAt := 0 }

/-- All requests failed, and the mean of no times is a NaN. -/
def unserved : Metrics :=
  { scenario := "simple", totalRequests := 1, successCount := 0, errorCount := 1, successRate := 0,
    ttftMeanS := nan, ttftMedianS := nan, ttftP95S := nan, tpotMeanS := nan, e2eMeanS := nan,
    e2eP95S := nan, tokensPerSecondMean := 0, totalTokensPerSecond := 0, requestsPerSecond := 0,
    totalDurationS := 0 }

def unservedUpdate : LeaderboardUpdate :=
  { run := benched, levels := [], now := 0,
    result := ⟨0, benched.model, benched.engine.value, .L40S, unserved⟩ }

theorem leaderboard_unloadable : ¬ ∀ (updates : List LeaderboardUpdate) (u : LeaderboardUpdate),
    ∃ text, leaderboardText (updates ++ [u]) = .ok (some text) ∧
      loads true text = some (.arr (leaderboardAfter (updates ++ [u]))) := by
  intro h
  obtain ⟨text, htext, hloads⟩ := h [] unservedUpdate
  have hentry := mem_leaderboardAfter.2
    ⟨[], unservedUpdate, [], rfl, fun v hv => absurd hv List.not_mem_nil, rfl⟩
  have hmetrics := ((finite_entry _).1 (finite_of_loads htext hloads hentry)).1
  exact absurd (hmetrics nan (by simp [unservedUpdate, unserved, Metrics.published])) (by decide)

end GrillPlatform
