import GrillPlatform.Seq.Firsts
import GrillPlatform.Seq.StableSort
import GrillPlatform.Site.Data
import Mathlib.Data.Finset.Card
import Mathlib.Data.List.Lex

/-! The filters of the dashboard: `Filters.svelte` counts for each pill the benched models whose
metadata match, and `+page.svelte` filters the rows of the view. -/

namespace GrillPlatform.Site

structure Catalogs where
  leaderboard : List LeaderboardRow
  models : List ModelMeta

/-- `text.includes(part)`. -/
def includes (text part : String) : Bool := part.toList <:+: text.toList

/-! ## +page.svelte -/

def categoryOrder : List String := ["Reasoning", "MoE", "Dense", "Quantized"]

/-- An unknown category comes after the known ones. -/
def catRank (c : String) : Nat := categoryOrder.idxOf c

def categories (models : List ModelMeta) : List String :=
  (Seq.firsts id [] (models.flatMap ModelMeta.categories)).insertionSort fun a b =>
    catRank a ≤ catRank b

/-- The UTF-16 code units of a text. -/
def codeUnits (text : String) : List Nat :=
  text.toList.flatMap fun c =>
    if c.toNat < 0x10000 then [c.toNat]
    else [0xd800 + (c.toNat - 0x10000) / 0x400, 0xdc00 + (c.toNat - 0x10000) % 0x400]

def brands (models : List ModelMeta) : List String :=
  (Seq.firsts id [] (models.map ModelMeta.brand)).insertionSort fun a b => codeUnits a ≤ codeUnits b

structure Active where
  cats : Finset String := ∅
  brands : Finset String := ∅
  engines : Finset String := ∅
  search : String := ""

def matchesRow (u : Unicode) (a : Active) (r : ViewRow) : Bool :=
  if 0 < a.cats.card ∧ ¬ r.categories.any (· ∈ a.cats) then false
  else if 0 < a.brands.card ∧ r.brand ∉ a.brands then false
  else if 0 < a.engines.card ∧ r.engine.value ∉ a.engines then false
  else if a.search ≠ "" then
    let q := u.lower a.search
    includes (u.lower r.name) q || includes (u.lower r.model) q
  else true

def filtered (u : Unicode) (view : List ViewRow) (a : Active) : List ViewRow :=
  view.filter (matchesRow u a)

def benchedModelIds (view : List ViewRow) : Finset String := (view.map ViewRow.model).toFinset

/-! ## Filters.svelte -/

section
variable (u : Unicode) (modelsMeta : List ModelMeta) (benched : Finset String) (search : String)

def searchedMeta : List ModelMeta :=
  if search ≠ "" then
    modelsMeta.filter fun m =>
      let q := u.lower search
      includes (u.lower m.displayName) q || includes (u.lower m.model) q
  else modelsMeta

def distinctBenched (rows : List ModelMeta) : Nat :=
  ((rows.filter (·.model ∈ benched)).map ModelMeta.model).toFinset.card

def catCount (c : String) : Nat :=
  distinctBenched benched ((searchedMeta u modelsMeta search).filter (c ∈ ·.categories))

def brandCount (b : String) : Nat :=
  distinctBenched benched ((searchedMeta u modelsMeta search).filter (·.brand = b))

def categoryPills : List String :=
  (categories modelsMeta).filter fun c => 0 < catCount u modelsMeta benched search c

def brandPills : List String :=
  (brands modelsMeta).filter fun b => 0 < brandCount u modelsMeta benched search b

end

/-- The distinct models among the rows that are displayed. -/
def shownModels (rows : List ViewRow) : Nat := (rows.map ViewRow.model).toFinset.card

/-- Every pill shows the number of models that its filter would leave, and there is a pill where
that filter would leave something. -/
structure Truthful (u : Unicode) (cat : Catalogs) (level : ConcurrencyLevel) (search : String) :
    Prop where
  category (c : String) : let view := buildView cat.leaderboard cat.models level
    catCount u cat.models (benchedModelIds view) search c =
      shownModels (filtered u view { cats := {c}, search })
  brand (b : String) (hb : b ∈ brands cat.models) :
    let view := buildView cat.leaderboard cat.models level
    brandCount u cat.models (benchedModelIds view) search b =
      shownModels (filtered u view { brands := {b}, search })
  categoryPill (c : String) (hc : c ∈ categories cat.models) :
    let view := buildView cat.leaderboard cat.models level
    c ∈ categoryPills u cat.models (benchedModelIds view) search ↔
      filtered u view { cats := {c}, search } ≠ []
  brandPill (b : String) (hb : b ∈ brands cat.models) :
    let view := buildView cat.leaderboard cat.models level
    b ∈ brandPills u cat.models (benchedModelIds view) search ↔
      filtered u view { brands := {b}, search } ≠ []

/-- The search finds a model by its name or its id. -/
def searched (u : Unicode) (search name model : String) : Bool :=
  search = "" || includes (u.lower name) (u.lower search) || includes (u.lower model)
    (u.lower search)

/-- What a category and a search ask of a model. -/
def inCategory (u : Unicode) (search c : String) (d : Metadata) (model : String) : Bool :=
  c ∈ d.categories && searched u search d.name model

/-- What a brand and a search ask of a model. -/
def ofBrand (u : Unicode) (search b : String) (d : Metadata) (model : String) : Bool :=
  d.brand = b && searched u search d.name model

section
variable (cat : Catalogs) (wanted : Metadata → String → Bool) (model : String)

def IsBenched : Prop := ∃ row ∈ cat.leaderboard, row.model = model

/-- The model has a wanted entry. -/
def IsListed : Prop := ∃ m ∈ cat.models, m.model = model ∧ wanted m.metadata model = true

/-- A wanted entry of the model has a row of its own engine. -/
def IsJoined : Prop := ∃ m ∈ cat.models, m.model = model ∧ wanted m.metadata model = true ∧
  ∃ row ∈ cat.leaderboard, m.pair = row.pair

/-- The model has a row without an entry, and what is derived from its id is wanted. -/
def IsUnlisted : Prop := wanted (derived model) model = true ∧
  ∃ row ∈ cat.leaderboard, row.model = model ∧ ∀ m ∈ cat.models, m.pair ≠ row.pair

instance decidableIsBenched : Decidable (IsBenched cat model) :=
  inferInstanceAs (Decidable (∃ row ∈ cat.leaderboard, _))

instance decidableIsListed : Decidable (IsListed cat wanted model) :=
  inferInstanceAs (Decidable (∃ m ∈ cat.models, _))

instance decidableIsJoined : Decidable (IsJoined cat wanted model) :=
  inferInstanceAs (Decidable (∃ m ∈ cat.models, _))

instance decidableIsUnlisted : Decidable (IsUnlisted cat wanted model) :=
  inferInstanceAs (Decidable (_ ∧ ∃ row ∈ cat.leaderboard, _))

end

section
variable (cat : Catalogs) (wanted : Metadata → String → Bool)

/-- The benched models with wanted entries, none of which has a row of its own engine, and without
a row that is wanted for itself. -/
def overcounted : Finset String := (cat.models.map ModelMeta.model).toFinset.filter fun model =>
  IsBenched cat model ∧ IsListed cat wanted model ∧
    ¬ IsJoined cat wanted model ∧ ¬ IsUnlisted cat wanted model

/-- The models with a row that is wanted for itself, and without a wanted entry. -/
def overlooked : Finset String := (cat.leaderboard.map LeaderboardRow.model).toFinset.filter
  fun model => IsUnlisted cat wanted model ∧ ¬ IsListed cat wanted model

end

/-- A benched model that lists a category does so in an entry with a row; for a brand, as many
models are counted for entries without a row as are left out for rows without an entry. -/
structure Balanced (u : Unicode) (cat : Catalogs) (search : String) : Prop where
  category (c model : String) : IsBenched cat model → IsListed cat (inCategory u search c) model →
    IsJoined cat (inCategory u search c) model
  brand (b : String) : b ∈ brands cat.models →
    (overcounted cat (ofBrand u search b)).card = (overlooked cat (ofBrand u search b)).card

section
variable {u : Unicode} {cat : Catalogs} {level : ConcurrencyLevel} {search : String}
  {wanted : Metadata → String → Bool} {model : String}

theorem IsJoined.benched (h : IsJoined cat wanted model) : IsBenched cat model := by
  obtain ⟨m, -, rfl, -, row, hrow, hpair⟩ := h
  exact ⟨row, hrow, (congrArg Prod.fst hpair).symm⟩

theorem IsJoined.listed (h : IsJoined cat wanted model) : IsListed cat wanted model := by
  obtain ⟨m, hm, hmodel, hwanted, -⟩ := h
  exact ⟨m, hm, hmodel, hwanted⟩

theorem IsUnlisted.benched (h : IsUnlisted cat wanted model) : IsBenched cat model := by
  obtain ⟨-, row, hrow, hmodel, -⟩ := h
  exact ⟨row, hrow, hmodel⟩

theorem mem_benchedModelIds :
    model ∈ benchedModelIds (buildView cat.leaderboard cat.models level) ↔ IsBenched cat model := by
  rw [benchedModelIds, List.mem_toFinset, buildView, List.map_map, List.mem_map]
  rfl

theorem mem_searchedMeta {models : List ModelMeta} {m : ModelMeta} :
    m ∈ searchedMeta u models search ↔
      m ∈ models ∧ searched u search m.displayName m.model = true := by
  unfold searchedMeta
  split
  · next h => simp [searched, h]
  · next h => simp [searched, not_not.1 h]

def counted (cat : Catalogs) (level : ConcurrencyLevel) (rows : List ModelMeta) : Finset String :=
  ((rows.filter (·.model ∈ benchedModelIds (buildView cat.leaderboard cat.models level))).map
    ModelMeta.model).toFinset

def displayed (u : Unicode) (cat : Catalogs) (level : ConcurrencyLevel) (a : Active) :
    Finset String :=
  ((filtered u (buildView cat.leaderboard cat.models level) a).map ViewRow.model).toFinset

theorem mem_counted {rows : List ModelMeta}
    (h : ∀ m, m ∈ rows ↔ m ∈ cat.models ∧ wanted m.metadata m.model = true) :
    model ∈ counted cat level rows ↔ IsListed cat wanted model ∧ IsBenched cat model := by
  simp only [counted, List.mem_toFinset, List.mem_map, List.mem_filter, decide_eq_true_eq, h,
    mem_benchedModelIds]
  constructor
  · rintro ⟨m, ⟨⟨hm, hwanted⟩, hbenched⟩, rfl⟩
    exact ⟨⟨m, hm, rfl, hwanted⟩, hbenched⟩
  · rintro ⟨⟨m, hm, rfl, hwanted⟩, hbenched⟩
    exact ⟨m, ⟨⟨hm, hwanted⟩, hbenched⟩, rfl⟩

theorem byKey_of_mem (hnodup : (cat.models.map ModelMeta.pair).Nodup) {m : ModelMeta}
    (hm : m ∈ cat.models) {row : LeaderboardRow} (hpair : m.pair = row.pair) :
    byKey cat.models (metaKey row.model row.engine) = some m := by
  have hkeys : (cat.models.map fun m => metaKey m.model m.engine).Nodup := by
    have hmap : (cat.models.map fun m => metaKey m.model m.engine) =
        (cat.models.map ModelMeta.pair).map fun k => metaKey k.1 k.2 := by
      rw [List.map_map]
      rfl
    rw [hmap]
    exact hnodup.map fun k k' h => metaKey_inj.1 h
  rw [← metaKey_inj.2 hpair]
  exact Seq.indexBy_of_nodup hkeys hm

theorem mem_displayed (hnodup : (cat.models.map ModelMeta.pair).Nodup) {a : Active}
    (h : ∀ v, matchesRow u a v = wanted v.metadata v.model) :
    model ∈ displayed u cat level a ↔ IsJoined cat wanted model ∨ IsUnlisted cat wanted model := by
  simp only [displayed, filtered, buildView, List.mem_toFinset, List.mem_map, List.mem_filter, h]
  constructor
  · rintro ⟨_, ⟨⟨row, hrow, rfl⟩, hwanted⟩, rfl⟩
    -- the row shows its entry, or what is derived from its id
    cases hkey : byKey cat.models (metaKey row.model row.engine) with
    | none =>
      rw [hkey] at hwanted
      exact .inr ⟨hwanted, row, hrow, rfl, byKey_eq_none.1 hkey⟩
    | some m =>
      rw [hkey] at hwanted
      obtain ⟨pre, post, hm, hpair, -⟩ := byKey_eq_some.1 hkey
      exact .inl ⟨m, by simp [hm], congrArg Prod.fst hpair, hwanted, row, hrow, hpair⟩
  · rintro (⟨m, hm, rfl, hwanted, row, hrow, hpair⟩ | ⟨hwanted, row, hrow, rfl, hnone⟩)
    · have hmodel : row.model = m.model := (congrArg Prod.fst hpair).symm
      refine ⟨_, ⟨⟨row, hrow, rfl⟩, ?_⟩, hmodel⟩
      rw [byKey_of_mem hnodup hm hpair]
      exact (congrArg (wanted m.metadata) hmodel).trans hwanted
    · refine ⟨_, ⟨⟨row, hrow, rfl⟩, ?_⟩, rfl⟩
      rw [byKey_eq_none.2 hnone]
      exact hwanted

/-- The two counts agree exactly when as many models are counted and not displayed as are displayed
and not counted. -/
theorem card_counted_iff (hnodup : (cat.models.map ModelMeta.pair).Nodup) {rows : List ModelMeta}
    {a : Active} (hrows : ∀ m, m ∈ rows ↔ m ∈ cat.models ∧ wanted m.metadata m.model = true)
    (ha : ∀ v, matchesRow u a v = wanted v.metadata v.model) :
    (counted cat level rows).card = (displayed u cat level a).card ↔
      (overcounted cat wanted).card = (overlooked cat wanted).card := by
  -- a model is counted for an entry and displayed for a row, so the counts agree up to the rest
  have hover : counted cat level rows \ displayed u cat level a = overcounted cat wanted := by
    ext model
    simp only [Finset.mem_sdiff, mem_counted hrows, mem_displayed hnodup ha, overcounted,
      Finset.mem_filter, List.mem_toFinset, List.mem_map, not_or]
    constructor
    · rintro ⟨⟨hlisted, hbenched⟩, hnot⟩
      have hentry : ∃ m ∈ cat.models, m.model = model := by
        obtain ⟨m, hm, hmodel, -⟩ := hlisted
        exact ⟨m, hm, hmodel⟩
      exact ⟨hentry, hbenched, hlisted, hnot⟩
    · rintro ⟨-, hbenched, hlisted, hnot⟩
      exact ⟨⟨hlisted, hbenched⟩, hnot⟩
  have hunder : displayed u cat level a \ counted cat level rows = overlooked cat wanted := by
    ext model
    simp only [Finset.mem_sdiff, mem_counted hrows, mem_displayed hnodup ha, overlooked,
      Finset.mem_filter, List.mem_toFinset, List.mem_map]
    constructor
    · rintro ⟨hjoined | hunlisted, hnot⟩
      · exact absurd ⟨hjoined.listed, hjoined.benched⟩ hnot
      · exact ⟨hunlisted.benched, hunlisted, fun hlisted => hnot ⟨hlisted, hunlisted.benched⟩⟩
    · rintro ⟨-, hunlisted, hnot⟩
      exact ⟨.inr hunlisted, fun hcounted => hnot hcounted.1⟩
  rw [← Finset.card_sdiff_eq_card_sdiff_iff, hover, hunder]

theorem shown_iff {a : Active} {rows : List ModelMeta}
    (h : (counted cat level rows).card = (displayed u cat level a).card) :
    0 < (counted cat level rows).card ↔
      filtered u (buildView cat.leaderboard cat.models level) a ≠ [] := by
  rw [h, displayed, Finset.card_pos, List.toFinset_nonempty_iff, ne_eq, List.map_eq_nil_iff]

theorem matchesRow_category (c : String) (v : ViewRow) :
    matchesRow u { cats := {c}, search } v = inCategory u search c v.metadata v.model := by
  simp only [matchesRow, inCategory, searched, ViewRow.metadata]
  by_cases hc : c ∈ v.categories <;> by_cases hs : search = "" <;> simp [hc, hs]

theorem matchesRow_brand (b : String) (v : ViewRow) :
    matchesRow u { brands := {b}, search } v = ofBrand u search b v.metadata v.model := by
  simp only [matchesRow, ofBrand, searched, ViewRow.metadata]
  by_cases hb : v.brand = b <;> by_cases hs : search = "" <;> simp [hb, hs]

theorem mem_inCategory (c : String) (m : ModelMeta) :
    m ∈ (searchedMeta u cat.models search).filter (c ∈ ·.categories) ↔
      m ∈ cat.models ∧ inCategory u search c m.metadata m.model = true := by
  simp only [List.mem_filter, mem_searchedMeta, inCategory, Bool.and_eq_true, decide_eq_true_eq]
  rw [and_assoc, and_comm (a := searched u search m.displayName m.model = true)]
  rfl

theorem mem_ofBrand (b : String) (m : ModelMeta) :
    m ∈ (searchedMeta u cat.models search).filter (·.brand = b) ↔
      m ∈ cat.models ∧ ofBrand u search b m.metadata m.model = true := by
  simp only [List.mem_filter, mem_searchedMeta, ofBrand, Bool.and_eq_true, decide_eq_true_eq]
  rw [and_assoc, and_comm (a := searched u search m.displayName m.model = true)]
  rfl

theorem not_isUnlisted (c : String) : ¬ IsUnlisted cat (inCategory u search c) model := by
  rintro ⟨hwanted, -⟩
  simp [inCategory, derived] at hwanted

theorem catCount_iff (hnodup : (cat.models.map ModelMeta.pair).Nodup) (c : String) :
    let view := buildView cat.leaderboard cat.models level
    catCount u cat.models (benchedModelIds view) search c =
        shownModels (filtered u view { cats := {c}, search }) ↔
      ∀ model, IsBenched cat model → IsListed cat (inCategory u search c) model →
        IsJoined cat (inCategory u search c) model := by
  have hlooked : overlooked cat (inCategory u search c) = ∅ := by
    rw [overlooked, Finset.filter_eq_empty_iff]
    exact fun model _ h => not_isUnlisted c h.1
  apply (card_counted_iff hnodup (mem_inCategory c) (matchesRow_category c)).trans
  rw [hlooked, Finset.card_empty, Finset.card_eq_zero, overcounted, Finset.filter_eq_empty_iff]
  constructor
  · intro h model hbenched hlisted
    obtain ⟨m, hm, hmodel, -⟩ := id hlisted
    by_contra hjoined
    exact h (by simpa using ⟨m, hm, hmodel⟩) ⟨hbenched, hlisted, hjoined, not_isUnlisted c⟩
  · rintro h model - ⟨hbenched, hlisted, hjoined, -⟩
    exact hjoined (h model hbenched hlisted)

theorem brandCount_iff (hnodup : (cat.models.map ModelMeta.pair).Nodup) (b : String) :
    let view := buildView cat.leaderboard cat.models level
    brandCount u cat.models (benchedModelIds view) search b =
        shownModels (filtered u view { brands := {b}, search }) ↔
      (overcounted cat (ofBrand u search b)).card = (overlooked cat (ofBrand u search b)).card :=
  card_counted_iff hnodup (mem_ofBrand b) (matchesRow_brand b)

end

/-- The pills are truthful exactly for the catalogs that are balanced. -/
theorem truthful_iff (u : Unicode) (cat : Catalogs) (level : ConcurrencyLevel) (search : String)
    (hnodup : (cat.models.map ModelMeta.pair).Nodup) :
    Truthful u cat level search ↔ Balanced u cat search := by
  constructor
  · rintro ⟨hcategory, hbrand, -, -⟩
    exact ⟨fun c => (catCount_iff hnodup c).1 (hcategory c),
      fun b hb => (brandCount_iff hnodup b).1 (hbrand b hb)⟩
  · rintro ⟨hcategory, hbrand⟩
    have hcat (c : String) := (@catCount_iff u cat level search hnodup c).2 (hcategory c)
    have hbr (b : String) (hb : b ∈ brands cat.models) :=
      (@brandCount_iff u cat level search hnodup b).2 (hbrand b hb)
    refine ⟨hcat, hbr, fun c hc => ?_, fun b hb => ?_⟩
    · intro view
      rw [categoryPills, List.mem_filter, decide_eq_true_eq, and_iff_right hc]
      exact shown_iff (hcat c)
    · intro view
      rw [brandPills, List.mem_filter, decide_eq_true_eq, and_iff_right hb]
      exact shown_iff (hbr b hb)

namespace Sample

def benched : LeaderboardRow :=
  { model := "Qwen/Qwen2.5-14B", engine := ⟨"vllm", by decide⟩, gpuType := "L40S", runId := "7",
    measuredAt := "2026-06-01", tokensPerSecondMean := 0, totalTokensPerSecond := 0,
    requestsPerSecond := 0, nRequests := 0, ttftMeanS := 0, ttftMedianS := 0, ttftP95S := 0,
    tpotMeanS := 0, e2eMeanS := 0, e2eP95S := 0, successRate := 0 }

def dense : ModelMeta :=
  { model := "Qwen/Qwen2.5-14B", engine := ⟨"vllm", by decide⟩, displayName := "Qwen2.5 14B",
    brand := "Qwen", paramsB := 0, quantization := none, categories := ["Dense"],
    scenario := "scenarios/ramp.yaml" }

/-- The same model on an engine it was not benched on. -/
def quantized : ModelMeta :=
  { dense with
    engine := ⟨"llamacpp", by decide⟩, quantization := some "Q4_K_M",
    categories := ["Dense", "Quantized"] }

end Sample

theorem truthful_of_benched : Truthful {} ⟨[Sample.benched], [Sample.dense]⟩ .agg "" := by
  refine (truthful_iff {} ⟨[Sample.benched], [Sample.dense]⟩ .agg "" (by decide)).2 ⟨?_, by decide⟩
  rintro c model - ⟨m, hm, hmodel, hwanted⟩
  obtain rfl : m = Sample.dense := by simpa using hm
  exact ⟨_, hm, hmodel, hwanted, Sample.benched, by decide, by decide⟩

/-- The pill of the quantized models shows one, and there is no row behind it. -/
theorem not_truthful : ¬ ∀ (u : Unicode) (cat : Catalogs) (level : ConcurrencyLevel)
    (search : String), (cat.models.map ModelMeta.pair).Nodup → Truthful u cat level search := by
  intro h
  have hpill := (h {} ⟨[Sample.benched], [Sample.dense, Sample.quantized]⟩ .agg ""
    (by decide)).category "Quantized"
  revert hpill
  decide

end GrillPlatform.Site
