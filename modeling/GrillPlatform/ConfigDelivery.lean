import GrillPlatform.ConfigReaders
import GrillPlatform.Tfvars
import GrillPlatform.Text.Url

/-! The configuration of a run on its way to the runner: `terraform.tfvars`, the user data of the
machine, its files, and the environment of the container. -/

namespace GrillPlatform
open CloudInit YamlText

/-- The variables that are given on the command line of terraform. -/
structure Secrets where
  hfToken : String
  apiKey : String

def templateVar (as : List Hcl.Assignment) (name : String) : Option (List Char) :=
  match (as.find? fun a => a.name = name.toList).map Hcl.Assignment.value with
  | some (.str s) => some s
  | some (.num n) => some (toString n).toList
  | _ => none

/-- The arguments of `templatefile` in `main.tf`. -/
def templateVars (secrets : Secrets) (as : List Hcl.Assignment) : Option Vars := do
  let runId ← templateVar as "run_id"
  let orchestratorUrl ← templateVar as "orchestrator_url"
  let model ← templateVar as "model"
  let engine ← templateVar as "engine"
  let ggufFile ← templateVar as "gguf_file"
  let scenarioContent ← templateVar as "scenario_content"
  let dockerImage ← templateVar as "docker_image"
  let downloadTimeoutSeconds ← templateVar as "download_timeout_seconds"
  let engineHealthTimeoutSeconds ← templateVar as "engine_health_timeout_seconds"
  some {
    runId, orchestratorUrl, model, engine, ggufFile, scenarioContent, dockerImage,
    downloadTimeoutSeconds, engineHealthTimeoutSeconds
    hfToken := secrets.hfToken.toList
    orchestratorApiKey := secrets.apiKey.toList }

/-! ## The machine -/

/-- What the runner's container has of the machine, and the commands that start it. -/
structure Container where
  environment : List (List Char × List Char)
  scenario : List Char
  commands : List (List Char)
  deriving DecidableEq

def fileAt (u : UserData) (path : List Char) : Option (List Char) :=
  (u.files.find? fun f => f.path = path).map File.content

/-- `ExecStart` of the service: the environment is in one file, and the scenario in the file that a
variable of it names. -/
def container (readers : Readers) (u : UserData) : Option Container := do
  let env ← fileAt u "/etc/llmgrill/env".toList
  let environment ← readers.envFile env
  let path ← environment.lookup "SCENARIO".toList
  let scenario ← fileAt u path
  some ⟨environment, scenario, u.commands⟩

def deliver (readers : Readers) (lenient : Bool) (secrets : Secrets) (text : List Char) :
    Option Container := do
  let as ← Hcl.read lenient text
  let v ← templateVars secrets as
  let u ← readers.userData (template v)
  container readers u

def runVars (cfg : Config) (secrets : Secrets) (run : Run) (scenario : String) : Vars where
  runId := (uuidStr run.id).toList
  orchestratorUrl := cfg.orchestratorUrl.toList
  hfToken := secrets.hfToken.toList
  orchestratorApiKey := secrets.apiKey.toList
  model := run.model.toList
  engine := run.engine.value.toList
  ggufFile := (run.ggufFile.getD "").toList
  scenarioContent := (scenarioFor run scenario).toList ++ ['\n']
  dockerImage := (dockerImage cfg run).toList
  downloadTimeoutSeconds := (toString cfg.downloadTimeoutSeconds).toList
  engineHealthTimeoutSeconds := (toString cfg.engineHealthTimeoutSeconds).toList

/-- What the settings, the secrets, the run and its scenario are made of: one line each but for the
scenario, and an image that a pair of quotes can hold. -/
structure PlainRun (cfg : Config) (secrets : Secrets) (run : Run) (scenario : String) : Prop where
  orchestratorUrl : Printable cfg.orchestratorUrl.toList
  image : Printable (dockerImage cfg run).toList ∧ '\'' ∉ (dockerImage cfg run).toList
  hfToken : Printable secrets.hfToken.toList
  apiKey : Printable secrets.apiKey.toList
  model : Printable run.model.toList
  ggufFile : Printable (run.ggufFile.getD "").toList
  scenario : ∀ c ∈ (scenarioFor run scenario).toList, isPrintable c = true ∨ c = '\n'

section
variable {lenient : Bool} {cfg : Config} {secrets : Secrets} {run : Run} {scenario : String}

theorem templateVars_assignments :
    templateVars secrets (assignments cfg run scenario) = some (runVars cfg secrets run scenario) :=
  rfl

theorem printable_hexDigits (r : RunId) (start len : Nat) : Printable (hexDigits r start len) := by
  have hdigit : ∀ n < 16, isPrintable (Nat.digitChar n) = true := by decide
  intro c hc
  obtain ⟨i, -, rfl⟩ := List.mem_map.1 hc
  exact hdigit _ (Nat.mod_lt _ (by decide))

theorem printable_uuidStr (r : RunId) : Printable (uuidStr r).toList := by
  have hhex := printable_hexDigits r
  have hdash : isPrintable '-' = true := by decide
  rw [uuidStr, String.toList_ofList]
  simp only [printable_append, printable_cons]
  exact ⟨⟨⟨⟨hhex 0 8, hdash, hhex 8 4⟩, hdash, hhex 12 4⟩, hdash, hhex 16 4⟩, hdash, hhex 20 12⟩

theorem printable_digits (n : Nat) : Printable (Nat.toDigits 10 n) := by
  intro c hc
  have hdigit : c.isDigit = true := Url.isDigit_toDigits hc
  have hrange : 48 ≤ c.toNat ∧ c.toNat ≤ 57 := by
    simpa [Char.isDigit, UInt32.le_iff_toNat_le] using hdigit
  exact decide_eq_true (.inr (.inl (by omega)))

theorem printable_int (n : Int) : Printable (toString n).toList := by
  cases n with
  | ofNat n => exact (Nat.toList_repr (n := n)).symm ▸ printable_digits n
  | negSucc n =>
    have htext : (toString (Int.negSucc n)).toList = '-' :: Nat.toDigits 10 (n + 1) := by
      rw [Int.toString_eq_repr, Int.repr_eq_if, if_neg (by omega), String.toList_append,
        Nat.toList_repr]
      rfl
    rw [htext]
    exact printable_cons.2 ⟨by decide, printable_digits _⟩

theorem PlainRun.vars (h : PlainRun cfg secrets run scenario) :
    (runVars cfg secrets run scenario).Printable where
  texts := by
    have hengine : Printable run.engine.value.toList := by
      cases run.engine <;> decide
    simp only [runVars, List.forall_mem_cons]
    exact ⟨printable_uuidStr _, h.orchestratorUrl, h.hfToken, h.apiKey, h.model, hengine,
      h.ggufFile, h.image.1, printable_int _, printable_int _,
      fun t ht => absurd ht List.not_mem_nil⟩
  scenario := by
    refine List.forall_mem_append.2 ⟨h.scenario, ?_⟩
    simp
  image := h.image.2

theorem envFile_environment {readers : Readers} (hreaders : readers.Documented) {v : Vars}
    (hv : v.Printable) : readers.envFile (envLines (environment v)) = some (environment v) := by
  have hnames : ∀ n ∈ (environment v).map Prod.fst, isEnvName n = true := by
    rw [environment, List.map_cons]
    simp only [List.map_cons, List.map_nil]
    decide
  exact hreaders.envFile _ fun q hq =>
    ⟨hnames _ (List.mem_map_of_mem hq), printable_values hv q hq⟩

theorem container_files {readers : Readers} (hreaders : readers.Documented) {v : Vars}
    (hv : v.Printable) : container readers ⟨files v, commands v⟩ =
      some ⟨environment v, ended v.scenarioContent, commands v⟩ := by
  have henv : fileAt ⟨files v, commands v⟩ "/etc/llmgrill/env".toList =
      some (envLines (environment v)) := rfl
  have hscenario : fileAt ⟨files v, commands v⟩ "/etc/llmgrill/scenario.yaml".toList =
      some (ended v.scenarioContent) := rfl
  have hlookup : (environment v).lookup "SCENARIO".toList =
      some "/etc/llmgrill/scenario.yaml".toList := rfl
  simp only [container, henv, Option.bind_eq_bind, Option.bind_some,
    envFile_environment hreaders hv, hlookup, hscenario]

theorem file_of_container {readers : Readers} {u : UserData} {c : Container}
    (h : container readers u = some c) : ∃ f ∈ u.files, f.content = c.scenario := by
  simp only [container, Option.bind_eq_bind, Option.bind_eq_some_iff] at h
  obtain ⟨_, -, _, -, _, -, scenario, hscenario, hc⟩ := h
  cases hc
  obtain ⟨f, hf, rfl⟩ := Option.map_eq_some_iff.1 hscenario
  exact ⟨f, List.mem_of_find?_eq_some hf, rfl⟩

/-- The container gets the run's configuration, and its scenario with the line breaks at the end
made one, exactly when the first line of the scenario with anything on it does not start with a
space. -/
theorem deliver_iff {readers : Readers} (hreaders : readers.Documented)
    (h : PlainRun cfg secrets run scenario)
    (hread : Hcl.read lenient (tfvars cfg run scenario).toList =
      some (assignments cfg run scenario)) :
    deliver readers lenient secrets (tfvars cfg run scenario).toList =
      some ⟨environment (runVars cfg secrets run scenario), ended (scenarioFor run scenario).toList,
        commands (runVars cfg secrets run scenario)⟩ ↔
      Starts ((scenarioFor run scenario).toList.splitOn '\n') := by
  have hv := h.vars
  have hcontent : (runVars cfg secrets run scenario).scenarioContent =
      (scenarioFor run scenario).toList ++ ['\n'] := rfl
  have hended : ended (runVars cfg secrets run scenario).scenarioContent =
      ended (scenarioFor run scenario).toList := ended_append _
  have hstarts : Starts ((runVars cfg secrets run scenario).scenarioContent.splitOn '\n') ↔
      Starts ((scenarioFor run scenario).toList.splitOn '\n') := by
    rw [hcontent, splitOn_line]
    exact starts_append_nil
  have hdeliver : deliver readers lenient secrets (tfvars cfg run scenario).toList =
      (readers.userData (template (runVars cfg secrets run scenario))).bind
        (container readers) := by
    simp only [deliver, hread, templateVars_assignments, Option.bind_eq_bind, Option.bind_some]
  rw [hdeliver, ← hstarts]
  constructor
  · intro hsome
    obtain ⟨u, hu, hc⟩ := Option.bind_eq_some_iff.1 hsome
    obtain ⟨f, hf, hscenario⟩ := file_of_container hc
    exact starts_of_read hreaders.userData hv hu hf (hscenario.trans hended.symm)
  · intro hs
    rw [read_template hreaders.userData hv hs, Option.bind_some, container_files hreaders hv,
      hended]

end

theorem deliver_sample :
    let scenario := "model: $\x7bMODEL\x7d\nlevels: [1]\n"
    deliver readers true ⟨"hf", "key"⟩ (tfvars Sample.config Sample.run scenario).toList =
      some ⟨environment (runVars Sample.config ⟨"hf", "key"⟩ Sample.run scenario),
        ended (scenarioFor Sample.run scenario).toList,
        commands (runVars Sample.config ⟨"hf", "key"⟩ Sample.run scenario)⟩ := by
  intro scenario
  have hlines : (scenarioFor Sample.run scenario).toList.all
      (fun c => isPrintable c = true ∨ c = '\n') = true := by decide
  have hplain : PlainRun Sample.config ⟨"hf", "key"⟩ Sample.run scenario :=
    ⟨by decide, by decide, by decide, by decide, by decide, by decide,
      fun c hc => of_decide_eq_true (List.all_eq_true.1 hlines c hc)⟩
  have hread : Hcl.read true (tfvars Sample.config Sample.run scenario).toList =
      some (assignments Sample.config Sample.run scenario) :=
    (read_iff_good plainSettings_sample).2
      ((good_varLines plainSettings_sample).2 ⟨by decide, by decide, by decide, by decide⟩)
  have hfirst : ((scenarioFor Sample.run scenario).toList.splitOn '\n').find?
      (fun l => !l.isEmpty) = some "model: m".toList := by decide
  have hstarts : Starts ((scenarioFor Sample.run scenario).toList.splitOn '\n') := by
    intro l hl
    cases hfirst.symm.trans hl
    decide
  exact (deliver_iff documented_readers hplain hread).2 hstarts

end GrillPlatform
