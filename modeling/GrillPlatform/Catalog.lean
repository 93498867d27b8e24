import GrillPlatform.Models
import GrillPlatform.Text.Unicode
import Mathlib.Data.List.Sort

/-! `catalog.py`: the documents of the static frontend, derived from `models.yaml` and from the
files `scenarios/*.yaml`. -/

namespace GrillPlatform

structure ModelEntry where
  model : String
  engine : Engine
  sizeB : Int
  scenario : String := "scenarios/ramp.yaml"
  ggufFile : Option String := none
  categories : Option (List String) := none
  deriving DecidableEq

/-- `text.split(sep)`. -/
def splitOn (sep : Char) (text : String) : List String :=
  (text.toList.splitOn sep).map String.ofList

/-- `Path(path).stem`. -/
def pathStem (path : String) : String :=
  let name := (((splitOn '/' path).filter fun part => part ≠ "" ∧ part ≠ ".").getLast?).getD ""
  let suffix := name.toList.reverse.takeWhile (· ≠ '.')
  let i := name.toList.length - suffix.length - 1
  if '.' ∈ name.toList ∧ 0 < i ∧ suffix ≠ [] then String.ofList (name.toList.take i) else name

/-! ## models.json -/

/-- `[A-Z0-9]` of a pattern that ignores case. -/
def isTagChar (c : Char) : Bool := (foldCase c).isLower || c.isDigit

/-- `(?:_[A-Z0-9]+)*` inside a group that has begun. -/
def tagGroups : List Char → List Char
  | '_' :: c :: cs => if isTagChar c then '_' :: c :: tagGroups cs else []
  | c :: cs => if isTagChar c then c :: tagGroups cs else []
  | [] => []

/-- `(?:_[A-Z0-9]+)*`. -/
def tagSuffixes : List Char → List Char
  | '_' :: c :: cs => if isTagChar c then '_' :: c :: tagGroups cs else []
  | _ => []

/-- A word of the pattern at the start of the text. -/
def startsWith (word : String) (text : List Char) : Bool :=
  word.toList.isPrefixOf (text.map foldCase)

/-- `IQ\d+[\w]*|Q\d+(?:_[A-Z0-9]+)*|BF16|F16|F32` at the start of the text: what it matches. -/
def quantAt (u : Unicode) (text : List Char) : Option (List Char) :=
  let digits (n : Nat) : List Char := (text.drop n).takeWhile isDecimal
  if startsWith "iq" text ∧ digits 2 ≠ [] then
    some (text.take 2 ++ digits 2 ++ (text.drop (2 + (digits 2).length)).takeWhile u.isWord)
  else if startsWith "q" text ∧ digits 1 ≠ [] then
    some (text.take 1 ++ digits 1 ++ tagSuffixes (text.drop (1 + (digits 1).length)))
  else if startsWith "bf16" text then some (text.take 4)
  else if startsWith "f16" text ∨ startsWith "f32" text then some (text.take 3)
  else none

def quantization (u : Unicode) : Option String → Option String
  | none => none
  | some ggufFile =>
    if ggufFile = "" then none
    else ((pathStem ggufFile).toList.tails.findSome? (quantAt u)).map fun tag =>
      u.upper (String.ofList tag)

def nameNoise : List String := ["instruct", "it", "chat", "hf", "gguf", "preview"]

def isVersionToken (u : Unicode) (token : String) : Bool :=
  let rest := (token.toList.drop 1).filter (· ≠ '.')
  u.lower (String.ofList (token.toList.take 1)) = "v" ∧ rest ≠ [] ∧ rest.all u.isDigit

/-- The trailing tokens that are noise are dropped. -/
def displayName (u : Unicode) (model : String) : String :=
  let last := ((splitOn '/' model).getLast?).getD ""
  let segment := if last = "" then model else last
  let tokens := (segment.toList.map fun c => if c = '_' then '-' else c).splitOn '-'
  let kept := (tokens.map String.ofList).reverse.dropWhile fun token =>
    decide (u.lower token ∈ nameNoise) || isVersionToken u token
  let name := strip (String.intercalate " " kept.reverse)
  if name = "" then segment else name

def categories (u : Unicode) (entry : ModelEntry) : List String :=
  let tags := entry.categories.getD ["Dense"]
  if (quantization u entry.ggufFile).isSome ∧ "Quantized" ∉ tags then tags ++ ["Quantized"]
  else tags

structure ModelRow where
  model : String
  engine : Engine
  displayName : String
  brand : String
  paramsB : Int
  quantization : Option String
  categories : List String
  scenario : String
  deriving DecidableEq

def buildModelsCatalog (u : Unicode) (entries : List ModelEntry) : List ModelRow :=
  entries.map fun e =>
    { model := e.model, engine := e.engine, displayName := displayName u e.model,
      brand := ((splitOn '/' e.model).head?).getD "", paramsB := e.sizeB,
      quantization := quantization u e.ggufFile, categories := categories u e,
      scenario := e.scenario }

/-! ## engines.json -/

def Engine.label : Engine → String
  | .vllm => "vLLM"
  | .llamacpp => "llama.cpp"

/-- Id and label of each engine, in the order of the declaration. -/
def buildEnginesCatalog : List (String × String) :=
  [Engine.vllm, Engine.llamacpp].map fun e => (e.value, e.label)

/-! ## scenarios.json -/

/-- What `yaml.safe_load` makes of a document. A tuple is a list here. -/
inductive Yaml where
  | null
  | bool (b : Bool)
  | int (n : Int)
  | float (x : PyFloat)
  | str (s : String)
  | binary (bytes : List UInt8)
  | timestamp (text : String)
  | seq (xs : List Yaml)
  | set (xs : List Yaml)
  | map (fields : List (Yaml × Yaml))

namespace Yaml

/-- `bool(v)`. -/
def truthy : Yaml → Bool
  | .null => false
  | .bool b => b
  | .int n => n ≠ 0
  | .float x => x ≠ 0 ∧ x ≠ 0x8000000000000000
  | .str s => s ≠ ""
  | .binary bytes => bytes ≠ []
  | .timestamp _ => true
  | .seq xs | .set xs => !xs.isEmpty
  | .map fields => !fields.isEmpty

/-- The key is the string `k`. -/
def isKey (k : String) : Yaml → Bool
  | .str s => s = k
  | _ => false

def field (fields : List (Yaml × Yaml)) (k : String) : Option Yaml :=
  (fields.find? fun f => f.1.isKey k).map Prod.snd

def attributeError : Exc := .other "AttributeError"
def typeError : Exc := .other "TypeError"

/-- `v.get(k, default)`: only a mapping has it. -/
def get (v : Yaml) (k : String) (default_ : Yaml) : Except Exc Yaml :=
  match v with
  | .map fields => .ok ((field fields k).getD default_)
  | _ => .error attributeError

/-- `v or default`. -/
def orElse (v default_ : Yaml) : Yaml := if v.truthy then v else default_

/-- The whitespace of `bytes.strip`. -/
def isAsciiSpace (b : UInt8) : Bool := b = 0x20 ∨ (0x09 ≤ b ∧ b ≤ 0x0d)

/-- `v.strip()`. -/
def stripped : Yaml → Except Exc Yaml
  | .str s => .ok (.str (strip s))
  | .binary bytes =>
    .ok (.binary ((bytes.dropWhile isAsciiSpace).reverse.dropWhile isAsciiSpace).reverse)
  | _ => .error attributeError

/-- `iter(v)`. -/
def elements : Yaml → Except Exc (List Yaml)
  | .str s => .ok (s.toList.map fun c => .str (String.singleton c))
  | .binary bytes => .ok (bytes.map fun b => .int b.toNat)
  | .seq xs | .set xs => .ok xs
  | .map fields => .ok (fields.map Prod.fst)
  | _ => .error typeError

/-- What `json.dumps` takes as a key. -/
def isJsonKey : Yaml → Bool
  | .null | .bool _ | .int _ | .float _ | .str _ => true
  | _ => false

/-! `json.dumps` of the value goes through. -/

mutual

def dumps : Yaml → Bool
  | .seq xs => dumpsAll xs
  | .map fields => dumpsFields fields
  | .binary _ | .timestamp _ | .set _ => false
  | _ => true

def dumpsAll : List Yaml → Bool
  | [] => true
  | x :: xs => dumps x && dumpsAll xs

def dumpsFields : List (Yaml × Yaml) → Bool
  | [] => true
  | (k, v) :: rest => isJsonKey k && dumps v && dumpsFields rest

end

end Yaml

structure ScenarioSummary where
  path : String
  name : Yaml
  description : Yaml
  concurrencyLevels : Yaml
  iterations : Yaml
  maxTokens : Yaml
  prompt : Yaml

/-- The first model that is a mapping with the key. -/
def firstMaxTokens (models : Yaml) : Except Exc Yaml := do
  let declared : Yaml → Option Yaml
    | .map fields => Yaml.field fields "max_tokens"
    | _ => none
  return ((← models.elements).findSome? declared).getD .null

/-- The turns of one conversation, up to the first of the user. -/
def userTurn : List Yaml → Except Exc (Option Yaml)
  | [] => .ok none
  | turn :: turns => do
    let role ← turn.get "role" .null
    if role.isKey "user" then return some (← turn.get "content" .null)
    else userTurn turns

def firstUserTurn : List Yaml → Except Exc Yaml
  | [] => .ok .null
  | conv :: conversations => do
    let turns ← (← conv.get "turns" (.seq [])).elements
    match ← userTurn turns with
    | some content => return content
    | none => firstUserTurn conversations

def firstUserPrompt (conversations : Yaml) : Except Exc Yaml := do
  firstUserTurn (← conversations.elements)

def scenarioSummary (scenarioPath : String) (doc : Yaml) : Except Exc ScenarioSummary := do
  let load := (← doc.get "load" .null).orElse (.map [])
  let models := (← doc.get "models" .null).orElse (.seq [])
  let conversations := (← doc.get "conversations" .null).orElse (.seq [])
  return {
    path := scenarioPath
    name := ← doc.get "name" (.str (pathStem scenarioPath))
    description := ← ((← doc.get "description" .null).orElse (.str "")).stripped
    concurrencyLevels := ← load.get "ramp_levels" (.seq [])
    iterations := ← load.get "iterations" .null
    maxTokens := ← firstMaxTokens models
    prompt := ← firstUserPrompt conversations }

/-- A file of the directory: its name, and `yaml.safe_load` of its text. -/
abbrev ScenarioFile := String × Except Exc Yaml

/-- The loop over the sorted files. A document that is no mapping is skipped. -/
def summarizeScenarios : List ScenarioFile → Except Exc (List ScenarioSummary)
  | [] => .ok []
  | (name, content) :: files => do
    match ← content with
    | .map fields => do
      let summary ← scenarioSummary s!"scenarios/{name}" (.map fields)
      return summary :: (← summarizeScenarios files)
    | _ => summarizeScenarios files

/-- `none` is a root without the directory. -/
def buildScenariosCatalog : Option (List ScenarioFile) → Except Exc (List ScenarioSummary)
  | none => .ok []
  | some files => summarizeScenarios (files.insertionSort fun a b => a.1 ≤ b.1)

/-- `json.dumps` of an entry goes through. -/
def ScenarioSummary.dumps (s : ScenarioSummary) : Bool :=
  s.name.dumps && s.description.dumps && s.concurrencyLevels.dumps && s.iterations.dumps &&
    s.maxTokens.dumps && s.prompt.dumps

/-- `json.dumps(build_scenarios_catalog(...))`, which fails on a value that JSON has not. -/
def dumpScenarios (files : Option (List ScenarioFile)) : Except Exc (List ScenarioSummary) := do
  let scenarios ← buildScenariosCatalog files
  if scenarios.all ScenarioSummary.dumps then return scenarios else throw Yaml.typeError

end GrillPlatform
