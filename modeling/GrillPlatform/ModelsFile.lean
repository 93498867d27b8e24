import GrillPlatform.Footprint

/-! `models.yaml` as `_load_models` reads it. A field's validator runs on the values the document
has; a default is taken as it is. -/

namespace GrillPlatform
open Coroutine

/-- How pydantic reads a value of a document as each of the types; `none` is an error. -/
structure Pydantic where
  str : Yaml → Option String
  int : Yaml → Option Int
  engine : Yaml → Option Engine
  strList : Yaml → Option (List String)

/-- `T | None`. -/
def orNull {α : Type} (read : Yaml → Option α) : Yaml → Option (Option α)
  | .null => some none
  | v => (read v).map some

def fieldOr {α : Type} (fields : List (Yaml × Yaml)) (k : String) (default_ : α)
    (read : Yaml → Option α) : Option α :=
  match Yaml.field fields k with
  | none => some default_
  | some v => read v

/-- The validator of `gguf_file`; the engine is there if it was valid itself. -/
def ggufRequiredForLlamacpp (engine : Option Engine) (v : Option String) : Option (Option String) :=
  if engine = some .llamacpp ∧ v.getD "" = "" then none else some v

/-- The fields of an entry, in the order of the class. -/
def ModelEntry.ofFields (π : Pydantic) (fields : List (Yaml × Yaml)) : Option ModelEntry := do
  let engine := (Yaml.field fields "engine").bind π.engine
  return {
    model := ← (Yaml.field fields "model").bind π.str
    engine := ← engine
    sizeB := ← (Yaml.field fields "size_b").bind π.int
    scenario := ← fieldOr fields "scenario" "scenarios/ramp.yaml" π.str
    ggufFile := ← fieldOr fields "gguf_file" none fun v =>
      (orNull π.str v).bind (ggufRequiredForLlamacpp engine)
    categories := ← fieldOr fields "categories" none (orNull π.strList) }

def ModelEntry.modelValidate (π : Pydantic) : Yaml → Except Exc ModelEntry
  | .map fields => (ofFields π fields).elim (.error (.valueError "ValidationError")) .ok
  | _ => .error (.valueError "ValidationError")

/-- `v[k]`. -/
def Yaml.item (v : Yaml) (k : String) : Except Exc Yaml :=
  match v with
  | .map fields => (field fields k).elim (.error (.other "KeyError")) .ok
  | _ => .error typeError

/-- The elements of `yaml.safe_load(f)["models"]`. -/
def rawEntries (document : Except Exc Yaml) : Except Exc (List Yaml) := do
  (← (← document).item "models").elements

def loadModels (π : Pydantic) (document : Except Exc Yaml) : Except Exc (List ModelEntry) := do
  (← rawEntries document).mapM (ModelEntry.modelValidate π)

/-- With llama.cpp there is a file to run. -/
def NamesGguf (engine : Engine) (ggufFile : Option String) : Prop :=
  engine = .llamacpp → ∃ s, ggufFile = some s ∧ s ≠ ""

/-- The entries for llama.cpp have the key, whatever stands under it. -/
def GgufGiven (π : Pydantic) (document : Except Exc Yaml) : Prop :=
  ∀ raw, rawEntries document = .ok raw → ∀ fields, .map fields ∈ raw →
    (Yaml.field fields "engine").bind π.engine = some .llamacpp →
      (Yaml.field fields "gguf_file").isSome

/-- A run the call creates for llama.cpp has a file. -/
def CreatesNamed (op : Op) : Prop :=
  ∀ run, op = .db (.runCreate run) → NamesGguf run.engine run.ggufFile

section
variable {π : Pydantic} {fields : List (Yaml × Yaml)} {entry : ModelEntry}

theorem ModelEntry.ofFields_eq_some (h : ofFields π fields = some entry) :
    (Yaml.field fields "engine").bind π.engine = some entry.engine ∧
      fieldOr fields "gguf_file" none (fun v => (orNull π.str v).bind
        (ggufRequiredForLlamacpp (some entry.engine))) = some entry.ggufFile := by
  obtain ⟨model, -, h⟩ := Option.bind_eq_some_iff.1 h
  obtain ⟨engine, hengine, h⟩ := Option.bind_eq_some_iff.1 h
  obtain ⟨sizeB, -, h⟩ := Option.bind_eq_some_iff.1 h
  obtain ⟨scenario, -, h⟩ := Option.bind_eq_some_iff.1 h
  obtain ⟨ggufFile, hgguf, h⟩ := Option.bind_eq_some_iff.1 h
  obtain ⟨categories, -, h⟩ := Option.bind_eq_some_iff.1 h
  cases h
  exact ⟨hengine, hengine ▸ hgguf⟩

theorem ModelEntry.modelValidate_ok {v : Yaml} (h : modelValidate π v = .ok entry) :
    ∃ fields, v = .map fields ∧ ofFields π fields = some entry := by
  unfold modelValidate at h
  split at h
  · next fields =>
    cases hf : ofFields π fields with
    | none =>
      rw [hf] at h
      cases h
    | some e =>
      rw [hf] at h
      cases h
      exact ⟨fields, rfl, hf⟩
  · cases h

/-- The validator passes nothing empty for llama.cpp. -/
theorem namesGguf_of_required {engine : Engine} {v v' : Option String}
    (h : ggufRequiredForLlamacpp (some engine) v = some v') : NamesGguf engine v' := by
  rintro rfl
  unfold ggufRequiredForLlamacpp at h
  split at h
  · cases h
  · next hne =>
    cases h
    cases v with
    | none => exact absurd ⟨rfl, rfl⟩ hne
    | some s => exact ⟨s, rfl, fun hs => hne ⟨rfl, hs⟩⟩

theorem ModelEntry.namesGguf_iff (h : ofFields π fields = some entry) :
    NamesGguf entry.engine entry.ggufFile ↔
      (entry.engine = .llamacpp → (Yaml.field fields "gguf_file").isSome) := by
  obtain ⟨-, hgguf⟩ := ofFields_eq_some h
  unfold fieldOr at hgguf
  cases hk : Yaml.field fields "gguf_file" with
  | none =>
    rw [hk] at hgguf
    have hnone : entry.ggufFile = none := (Option.some.inj hgguf).symm
    rw [hnone]
    constructor
    · intro hnamed hllama
      obtain ⟨s, hs, -⟩ := hnamed hllama
      cases hs
    · intro hkey hllama
      cases hkey hllama
  | some v =>
    rw [hk] at hgguf
    obtain ⟨g, -, hg⟩ := Option.bind_eq_some_iff.1 hgguf
    exact ⟨fun _ _ => rfl, fun _ => namesGguf_of_required hg⟩

end

section
variable {π : Pydantic} {document : Except Exc Yaml} {entries : List ModelEntry}

theorem loadModels_ok (h : loadModels π document = .ok entries) : ∃ raw,
    rawEntries document = .ok raw ∧
      List.Forall₂ (fun v e => ModelEntry.modelValidate π v = .ok e) raw entries := by
  obtain ⟨raw, hraw, h⟩ := exceptBind_ok h
  exact ⟨raw, hraw, forall₂_of_mapM h⟩

theorem namesGguf_iff_given (h : loadModels π document = .ok entries) :
    (∀ e ∈ entries, NamesGguf e.engine e.ggufFile) ↔ GgufGiven π document := by
  obtain ⟨raw, hraw, hall⟩ := loadModels_ok h
  constructor
  · intro hnamed raw' hraw' fields hfields hengine
    cases hraw.symm.trans hraw'
    obtain ⟨e, he, hv⟩ := exists_right_of_forall₂ hall hfields
    obtain ⟨_, ⟨⟩, hof⟩ := ModelEntry.modelValidate_ok hv
    have hllama : e.engine = .llamacpp :=
      Option.some.inj ((ModelEntry.ofFields_eq_some hof).1.symm.trans hengine)
    exact (ModelEntry.namesGguf_iff hof).1 (hnamed e he) hllama
  · intro hgiven e he
    obtain ⟨v, hv, hok⟩ := exists_left_of_forall₂ hall he
    obtain ⟨fields, rfl, hof⟩ := ModelEntry.modelValidate_ok hok
    refine (ModelEntry.namesGguf_iff hof).2 fun hllama => hgiven raw hraw fields hv ?_
    rw [(ModelEntry.ofFields_eq_some hof).1, hllama]

theorem submit_createsNamed {cfg : Config} (force : Bool) (modelFilter : Option String)
    (hload : cfg.loadModels = .ok entries) (h : ∀ e ∈ entries, NamesGguf e.engine e.ggufFile) :
    (BenchService.submit cfg force modelFilter).Calls (S := sig) CreatesNamed := by
  refine submit_calls cfg force modelFilter fun op _ hfrom run hrun => ?_
  obtain ⟨e, he, hengine, hgguf⟩ := hfrom entries hload run hrun
  rw [hengine, hgguf]
  exact h e he

/-- Of an accepted document, every entry for llama.cpp names its file, and with it every run that
`submit` creates, exactly when the key is there in each of them. -/
theorem ggufNamed_iff (h : loadModels π document = .ok entries) :
    ((∀ e ∈ entries, NamesGguf e.engine e.ggufFile) ∧
      ∀ cfg force modelFilter, cfg.loadModels = loadModels π document →
        (BenchService.submit cfg force modelFilter).Calls (S := sig) CreatesNamed) ↔
      GgufGiven π document := by
  rw [← namesGguf_iff_given h]
  exact and_iff_left_of_imp fun hnamed cfg force modelFilter hload =>
    submit_createsNamed force modelFilter (hload.trans h) hnamed

end

namespace Sample

/-- Values that have the type as they stand. -/
def pydantic : Pydantic where
  str
    | .str s => some s
    | _ => none
  int
    | .int n => some n
    | _ => none
  engine
    | .str s => [Engine.vllm, Engine.llamacpp].find? fun e => e.value = s
    | _ => none
  strList _ := none

/-- A document with one entry for llama.cpp, which has these fields as well. -/
def llamaDocument (fields : List (Yaml × Yaml)) : Except Exc Yaml :=
  .ok (.map [(.str "models", .seq [.map ((.str "model", .str "m/x") ::
    (.str "engine", .str "llamacpp") :: (.str "size_b", .int 8) :: fields)])])

end Sample

theorem ggufNamed_of_given :
    let document := Sample.llamaDocument [(.str "gguf_file", .str "x-Q4_0.gguf")]
    let entry : ModelEntry :=
      { model := "m/x", engine := .llamacpp, sizeB := 8, ggufFile := some "x-Q4_0.gguf" }
    ((∀ e ∈ [entry], NamesGguf e.engine e.ggufFile) ∧
      ∀ cfg force modelFilter, cfg.loadModels = loadModels Sample.pydantic document →
        (BenchService.submit cfg force modelFilter).Calls (S := sig) CreatesNamed) ↔
      GgufGiven Sample.pydantic document :=
  ggufNamed_iff (by decide)

/-- Without the key the default is not looked at. -/
theorem not_ggufNamed : ¬ ∀ (π : Pydantic) (document : Except Exc Yaml) (entries : List ModelEntry),
    loadModels π document = .ok entries → ∀ e ∈ entries, NamesGguf e.engine e.ggufFile := by
  intro h
  have hload : loadModels Sample.pydantic (Sample.llamaDocument []) =
      .ok [{ model := "m/x", engine := .llamacpp, sizeB := 8 }] := by decide
  obtain ⟨s, hs, -⟩ := h _ _ _ hload _ (List.mem_singleton_self _) rfl
  cases hs

end GrillPlatform
