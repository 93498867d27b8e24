import GrillPlatform.Catalog
import GrillPlatform.Float.Binary64
import GrillPlatform.Seq.IndexBy
import GrillPlatform.Text.Cut

/-! `data.ts`: the rows of the dashboard, joined from the leaderboard and the models of the catalog
by model and engine. -/

namespace GrillPlatform.Site
open Binary64

abbrev Number := BitVec 64

/-- `x === y`. -/
def strictEq (x y : Number) : Bool :=
  !isNaN x && !isNaN y && (x = y || (magnitude x = 0 && magnitude y = 0))

/-- The id of an engine, a member of the orchestrator's enumeration. -/
structure EngineId where
  value : String
  plain : '@' ∉ value.toList
  deriving DecidableEq

/-! ## types.ts -/

structure ConcurrencyPoint where
  concurrency : Number
  nRequests : Number
  successRate : Number
  ttftMeanS : Number
  ttftMedianS : Number
  ttftP95S : Number
  tpotMeanS : Number
  e2eMeanS : Number
  e2eP95S : Number
  tokensPerSecondMean : Number
  totalTokensPerSecond : Number
  requestsPerSecond : Number
  deriving DecidableEq

structure LeaderboardRow where
  model : String
  engine : EngineId
  gpuType : String
  tokensPerSecondMean : Number
  totalTokensPerSecond : Number
  requestsPerSecond : Number
  nRequests : Number
  ttftMeanS : Number
  ttftMedianS : Number
  ttftP95S : Number
  tpotMeanS : Number
  e2eMeanS : Number
  e2eP95S : Number
  successRate : Number
  perConcurrency : Option (List ConcurrencyPoint) := none
  runId : String
  measuredAt : String
  deriving DecidableEq

structure ModelMeta where
  model : String
  engine : EngineId
  displayName : String
  brand : String
  paramsB : Number
  quantization : Option String
  categories : List String
  scenario : String
  deriving DecidableEq

structure Hardware where
  label : String
  type : String
  deriving DecidableEq

structure FlatPoint where
  concurrency : Number
  ttftMean : Number
  ttftP95 : Number
  ttftP50 : Number
  tpotMean : Number
  e2eMean : Number
  e2eP95 : Number
  tokensPerSec : Number
  totalTokensPerSec : Number
  successRate : Number
  nRequests : Number
  deriving DecidableEq

structure ViewRow extends FlatPoint where
  id : String
  model : String
  engine : EngineId
  name : String
  brand : String
  categories : List String
  quantization : Option String
  hardware : Hardware
  paramsB : Number
  row : LeaderboardRow
  deriving DecidableEq

inductive ConcurrencyLevel where
  | agg
  | level (n : Number)
  deriving DecidableEq

/-! ## data.ts -/

def hardwareFor (gpuType : String) : Hardware := { label := "1×" ++ gpuType, type := gpuType }

def aggregatePoint (row : LeaderboardRow) : ConcurrencyPoint where
  concurrency := 0
  nRequests := row.nRequests
  successRate := row.successRate
  ttftMeanS := row.ttftMeanS
  ttftMedianS := row.ttftMedianS
  ttftP95S := row.ttftP95S
  tpotMeanS := row.tpotMeanS
  e2eMeanS := row.e2eMeanS
  e2eP95S := row.e2eP95S
  tokensPerSecondMean := row.tokensPerSecondMean
  totalTokensPerSecond := row.totalTokensPerSecond
  requestsPerSecond := row.requestsPerSecond

def perConcurrency (row : LeaderboardRow) : List ConcurrencyPoint := row.perConcurrency.getD []

def pointAt (row : LeaderboardRow) : ConcurrencyLevel → ConcurrencyPoint
  | .agg => aggregatePoint row
  | .level n =>
    ((perConcurrency row).find? fun p => strictEq p.concurrency n).getD (aggregatePoint row)

def flattenPoint (p : ConcurrencyPoint) : FlatPoint where
  concurrency := p.concurrency
  ttftMean := p.ttftMeanS
  ttftP95 := p.ttftP95S
  ttftP50 := p.ttftMedianS
  tpotMean := p.tpotMeanS
  e2eMean := p.e2eMeanS
  e2eP95 := p.e2eP95S
  tokensPerSec := p.tokensPerSecondMean
  totalTokensPerSec := p.totalTokensPerSecond
  successRate := p.successRate
  nRequests := p.nRequests

def metaKey (model : String) (engine : EngineId) : String := model ++ "@" ++ engine.value

/-- `model.split('/').pop() ?? model`. -/
def derivedName (model : String) : String := (splitOn '/' model).getLast?.getD model

/-- `model.split('/')[0]`. -/
def derivedBrand (model : String) : String := (splitOn '/' model).head?.getD ""

def viewRow (entry : Option ModelMeta) (level : ConcurrencyLevel) (row : LeaderboardRow) :
    ViewRow where
  toFlatPoint := flattenPoint (pointAt row level)
  id := metaKey row.model row.engine
  model := row.model
  engine := row.engine
  name := (entry.map ModelMeta.displayName).getD (derivedName row.model)
  brand := (entry.map ModelMeta.brand).getD (derivedBrand row.model)
  paramsB := (entry.map ModelMeta.paramsB).getD 0
  categories := (entry.map ModelMeta.categories).getD []
  quantization := entry.bind ModelMeta.quantization
  hardware := hardwareFor row.gpuType
  row

def byKey (models : List ModelMeta) : String → Option ModelMeta :=
  Seq.indexBy (fun m => metaKey m.model m.engine) models

def buildView (leaderboard : List LeaderboardRow) (models : List ModelMeta)
    (level : ConcurrencyLevel) : List ViewRow :=
  leaderboard.map fun row => viewRow (byKey models (metaKey row.model row.engine)) level row

def LeaderboardRow.pair (row : LeaderboardRow) : String × EngineId := (row.model, row.engine)

def ModelMeta.pair (m : ModelMeta) : String × EngineId := (m.model, m.engine)

structure Metadata where
  name : String
  brand : String
  paramsB : Number
  categories : List String
  quantization : Option String

def ModelMeta.metadata (m : ModelMeta) : Metadata :=
  ⟨m.displayName, m.brand, m.paramsB, m.categories, m.quantization⟩

def ViewRow.metadata (v : ViewRow) : Metadata :=
  ⟨v.name, v.brand, v.paramsB, v.categories, v.quantization⟩

/-- What is said of a model without an entry. -/
def derived (model : String) : Metadata := ⟨derivedName model, derivedBrand model, 0, [], none⟩

/-- No engine has the separator in its id, so the key tells the pairs apart. -/
theorem metaKey_inj {m m' : String} {e e' : EngineId} :
    metaKey m e = metaKey m' e' ↔ (m, e) = (m', e') := by
  refine ⟨fun h => ?_, fun h => by rw [(Prod.mk.inj h).1, (Prod.mk.inj h).2]⟩
  have hat : "@".toList = ['@'] := by decide
  -- read from behind, the key is cut at its first separator
  have hlist := congrArg (fun s : String => s.toList.reverse) h
  simp only [metaKey, String.toList_append, hat, List.reverse_append, List.reverse_singleton,
    List.singleton_append] at hlist
  obtain ⟨hengine, hmodel⟩ :=
    Text.eq_of_cut (by simpa using e.plain) (by simpa using e'.plain) hlist
  have hvalue : e.value = e'.value := String.toList_inj.1 (List.reverse_injective hengine)
  obtain ⟨_, _⟩ := e
  obtain ⟨_, _⟩ := e'
  obtain rfl : _ = _ := hvalue
  rw [String.toList_inj.1 (List.reverse_injective hmodel)]

theorem byKey_eq_some {models : List ModelMeta} {row : LeaderboardRow} {m : ModelMeta} :
    byKey models (metaKey row.model row.engine) = some m ↔ ∃ pre post, models = pre ++ m :: post ∧
      m.pair = row.pair ∧ ∀ x ∈ post, x.pair ≠ row.pair := by
  simp only [byKey, Seq.indexBy_eq_some, metaKey_inj, ne_eq]
  rfl

theorem byKey_eq_none {models : List ModelMeta} {row : LeaderboardRow} :
    byKey models (metaKey row.model row.engine) = none ↔ ∀ m ∈ models, m.pair ≠ row.pair := by
  simp only [byKey, Seq.indexBy_eq_none, metaKey_inj, ne_eq]
  rfl

end GrillPlatform.Site
