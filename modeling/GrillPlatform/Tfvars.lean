import GrillPlatform.Hcl.Lines
import GrillPlatform.System
import Mathlib.Data.List.DropRight

/-! `terraform.tfvars` read back by the rules of HCL. The scenario is escaped for its heredoc; the
texts of the run go between quotes as they are. -/

namespace GrillPlatform
open Hcl

/-- The operator's settings have no characters that mean something between quotes. -/
structure Config.PlainSettings (cfg : Config) : Prop where
  instanceType : Verbatim cfg.gpuInstanceTypeOverride.toList
  orchestratorUrl : Verbatim cfg.orchestratorUrl.toList
  gpuZone : Verbatim cfg.gpuZone.toList
  sshPublicKeys : Verbatim cfg.sshPublicKeys.toList
  adminCidrs : Verbatim cfg.adminCidrs.toList
  dockerImageVllm : Verbatim cfg.dockerImageVllm.toList
  dockerImageLlamacpp : Verbatim cfg.dockerImageLlamacpp.toList

def dockerImage (cfg : Config) (run : Run) : String :=
  if run.engine.value = "vllm" then cfg.dockerImageVllm else cfg.dockerImageLlamacpp

def instanceSku (cfg : Config) (run : Run) : String :=
  if cfg.gpuInstanceTypeOverride ≠ "" then cfg.gpuInstanceTypeOverride
  else instanceType run.gpuTypeRequired

/-- The scenario as the runner is to get it. -/
def scenarioFor (run : Run) (scenario : String) : String :=
  replaceAll "$\x7bMODEL\x7d" run.model scenario

/-- The names are padded to one column where they fit. -/
def padding (name : String) : List Char := List.replicate (max 1 (17 - name.toList.length)) ' '

section
variable (lenient : Bool) (cfg : Config) (run : Run) (scenario : String)

def quotedVar (name value : String) : Line := quotedLine name.toList (padding name) value.toList

def listVar (name : String) (values : List String) : Line :=
  listLine name.toList (padding name) (values.map String.toList)

def numberVar (name : String) (n : Int) : Line := numberLine name.toList (padding name) n

/-- The fifteen assignments. -/
def varLines : List Line :=
  [quotedVar "run_id" (uuidStr run.id),
    quotedVar "gpu_type" run.gpuTypeRequired.value,
    quotedVar "instance_type" (instanceSku cfg run),
    quotedVar "orchestrator_url" cfg.orchestratorUrl,
    quotedVar "gpu_zone" cfg.gpuZone,
    listVar "ssh_public_keys" (commaList cfg.sshPublicKeys),
    listVar "admin_cidrs" (adminCidrs cfg),
    quotedVar "model" run.model,
    quotedVar "engine" run.engine.value,
    quotedVar "scenario_path" run.scenarioPath,
    quotedVar "gguf_file" (run.ggufFile.getD ""),
    quotedVar "docker_image" (dockerImage cfg run),
    numberVar "download_timeout_seconds" cfg.downloadTimeoutSeconds,
    numberVar "engine_health_timeout_seconds" cfg.engineHealthTimeoutSeconds,
    heredocLine lenient "scenario_content".toList (padding "scenario_content") "EOT_SCENARIO".toList
      (scenarioFor run scenario).toList]

end

theorem replaceFrom_keep {pat rep cs : List Char} {c : Char}
    (h : pat.isPrefixOf (c :: cs) = false) :
    replaceFrom pat rep 0 (c :: cs) = c :: replaceFrom pat rep 0 cs := by
  rw [replaceFrom, if_neg (by simp [h])]

theorem isPrefixOf_pair {m c : Char} {cs : List Char} (h : c = m → ∀ y, cs ≠ '\x7b' :: y) :
    [m, '\x7b'].isPrefixOf (c :: cs) = false := by
  rw [Bool.eq_false_iff, ne_eq, List.isPrefixOf_iff_prefix]
  rintro ⟨y, hy⟩
  obtain ⟨hc, hcs⟩ := List.cons.inj hy
  exact h hc.symm y hcs.symm

theorem replaceFrom_brace {cs x : List Char}
    (h : replaceFrom ['$', '\x7b'] ['$', '$', '\x7b'] 0 cs = '\x7b' :: x) :
    ∃ y, cs = '\x7b' :: y := by
  cases cs with
  | nil => cases h
  | cons c cs =>
    rw [replaceFrom] at h
    split at h
    · cases h
    · exact ⟨cs, by rw [(List.cons.inj h).1]⟩

/-- The two replacements of the code are one pass over the text. -/
theorem replaceFrom_escape (cs : List Char) :
    replaceFrom ['%', '\x7b'] ['%', '%', '\x7b'] 0
      (replaceFrom ['$', '\x7b'] ['$', '$', '\x7b'] 0 cs) = escape cs := by
  fun_induction escape cs with
  | case1 cs ih => simpa [replaceFrom] using ih
  | case2 cs ih => simpa [replaceFrom] using ih
  | case3 c cs hd hp ih =>
    have hdollar : ['$', '\x7b'].isPrefixOf (c :: cs) = false := isPrefixOf_pair fun hc y => hd y hc
    have hpercent : ['%', '\x7b'].isPrefixOf
        (c :: replaceFrom ['$', '\x7b'] ['$', '$', '\x7b'] 0 cs) = false := by
      refine isPrefixOf_pair fun hc x hx => ?_
      obtain ⟨y, hy⟩ := replaceFrom_brace hx
      exact hp y hc hy
    rw [replaceFrom_keep hdollar, replaceFrom_keep hpercent, ih]
  | case4 => rfl

theorem toList_replaced (t : String) :
    (replaceAll "%\x7b" "%%\x7b" (replaceAll "$\x7b" "$$\x7b" t)).toList = escape t.toList := by
  have hpercent : "%\x7b".toList = ['%', '\x7b'] ∧ "%%\x7b".toList = ['%', '%', '\x7b'] := by decide
  have hdollar : "$\x7b".toList = ['$', '\x7b'] ∧ "$$\x7b".toList = ['$', '$', '\x7b'] := by decide
  have hall : ∀ pat rep s : String, (replaceAll pat rep s).toList =
      replaceFrom pat.toList rep.toList 0 s.toList := fun _ _ _ => String.toList_ofList
  rw [hall, hall, hpercent.1, hpercent.2, hdollar.1, hdollar.2, replaceFrom_escape]

theorem scenarioContent_eq (run : Run) (scenario : String) :
    (scenarioContent scenario run.model).toList = escape (scenarioFor run scenario).toList :=
  toList_replaced (scenarioFor run scenario)

/-- In the scenario as it is written no template opens, and it denotes the scenario the runner is to
get, whatever characters that has. -/
theorem scenarioContent_denotes (t : String) :
    (∀ run scenario, scenarioFor run scenario = t → scenarioContent scenario run.model =
      replaceAll "%\x7b" "%%\x7b" (replaceAll "$\x7b" "$$\x7b" t)) ∧
    ¬ Opens (replaceAll "%\x7b" "%%\x7b" (replaceAll "$\x7b" "$$\x7b" t)).toList ∧
    ∀ v, Denotes (replaceAll "%\x7b" "%%\x7b" (replaceAll "$\x7b" "$$\x7b" t)).toList v ↔
      v = t.toList := by
  have hdenotes : Denotes (replaceAll "%\x7b" "%%\x7b" (replaceAll "$\x7b" "$$\x7b" t)).toList
      t.toList := by
    rw [toList_replaced]
    exact denotes_escape t.toList
  refine ⟨?_, hdenotes.not_opens, fun v => ⟨fun hv => hv.unique hdenotes, ?_⟩⟩
  · rintro run scenario rfl
    rfl
  · rintro rfl
    exact hdenotes

/-- A doubled marker in the scenario is not mistaken for an escape. -/
example : replaceAll "%\x7b" "%%\x7b" (replaceAll "$\x7b" "$$\x7b" "$$\x7ba\x7d%$\x7b") =
    "$$$\x7ba\x7d%$$\x7b" := by decide

section
variable (name key : String)

theorem toList_quotedVar (hkey : key.toList ++ [' '] = name.toList ++ padding name)
    (value : String) :
    (key ++ " = \"" ++ value ++ "\"\n").toList = (quotedVar name value).text := by
  have heq : " = \"".toList = [' ', '=', ' ', '"'] ∧ "\"\n".toList = ['"', '\n'] := by decide
  rw [String.toList_append, String.toList_append, String.toList_append, heq.1, heq.2,
    show [' ', '=', ' ', '"'] = [' '] ++ ['=', ' ', '"'] from rfl, ← List.append_assoc, hkey]
  simp [quotedVar, quotedLine, assign]

theorem toList_hclList (xs : List String) :
    (hclList xs).toList = '[' :: (listText (xs.map String.toList) ++ [']']) := by
  have hopen : "[".toList = ['['] ∧ "]".toList = [']'] := by decide
  have hsep : ", ".toList = [',', ' '] := by decide
  have hitem : ∀ x : String, ("\"" ++ x ++ "\"").toList = quotedItem x.toList := by
    intro x
    rw [String.toList_append, String.toList_append, show "\"".toList = ['"'] by decide]
    rfl
  rw [hclList, String.toList_append, String.toList_append, hopen.1, hopen.2,
    String.toList_intercalate,
    hsep, List.map_map, listText, List.map_map]
  simp only [Function.comp_def, hitem]
  rfl

theorem toList_listVar (hkey : key.toList = name.toList ++ (padding name ++ ['=', ' ']))
    (xs : List String) :
    (key ++ hclList xs ++ "\n").toList = (listVar name xs).text := by
  have hend : "\n".toList = ['\n'] := by decide
  rw [String.toList_append, String.toList_append, hkey, hend, toList_hclList]
  simp [listVar, listLine, assign]

theorem toList_numberVar (hkey : key.toList = name.toList ++ (padding name ++ ['=', ' ']))
    (n : Int) :
    (key ++ toString n ++ "\n").toList = (numberVar name n).text := by
  have hend : "\n".toList = ['\n'] := by decide
  rw [String.toList_append, String.toList_append, hkey, hend]
  simp [numberVar, numberLine, assign]

end

theorem toList_scenarioVar (lenient : Bool) (run : Run) (scenario : String) :
    ("scenario_content = <<EOT_SCENARIO\n" ++ scenarioContent scenario run.model ++
      "\nEOT_SCENARIO\n").toList = (heredocLine lenient "scenario_content".toList
        (padding "scenario_content") "EOT_SCENARIO".toList
        (scenarioFor run scenario).toList).text := by
  have hopen : "scenario_content = <<EOT_SCENARIO\n".toList = "scenario_content".toList ++
    (padding "scenario_content" ++ '=' :: ' ' :: '<' :: '<' :: "EOT_SCENARIO".toList ++
    ['\n']) := by
    decide
  have hclose : "\nEOT_SCENARIO\n".toList = '\n' :: ("EOT_SCENARIO".toList ++ ['\n']) := by decide
  rw [String.toList_append, String.toList_append, scenarioContent_eq, hopen, hclose]
  generalize "scenario_content".toList = a
  generalize padding "scenario_content" = b
  generalize "EOT_SCENARIO".toList = c
  simp [heredocLine, assign]

theorem toList_tfvars (lenient : Bool) (cfg : Config) (run : Run) (scenario : String) :
    (tfvars cfg run scenario).toList = (varLines lenient cfg run scenario).flatMap Line.text := by
  have hquoted : ∀ name key : String, key.toList ++ [' '] = name.toList ++ padding name → ∀ value,
    (quotedVar name value).text = (key ++ " = \"" ++ value ++ "\"\n").toList :=
    fun name key h value => (toList_quotedVar name key h value).symm
  have hlist : ∀ name key : String, key.toList = name.toList ++ (padding name ++ ['=', ' ']) → ∀ xs,
    (listVar name xs).text = (key ++ hclList xs ++ "\n").toList :=
    fun name key h xs => (toList_listVar name key h xs).symm
  have hnumber :
      ∀ name key : String, key.toList = name.toList ++ (padding name ++ ['=', ' ']) → ∀ n : Int,
      (numberVar name n).text = (key ++ toString n ++ "\n").toList :=
    fun name key h n => (toList_numberVar name key h n).symm
  simp only [varLines, List.flatMap_cons, List.flatMap_nil, List.append_nil,
    hquoted "run_id" "run_id          " (by decide),
    hquoted "gpu_type" "gpu_type        " (by decide),
    hquoted "instance_type" "instance_type   " (by decide),
    hquoted "orchestrator_url" "orchestrator_url" (by decide),
    hquoted "gpu_zone" "gpu_zone        " (by decide),
    hlist "ssh_public_keys" "ssh_public_keys  = " (by decide),
    hlist "admin_cidrs" "admin_cidrs      = " (by decide),
    hquoted "model" "model           " (by decide),
    hquoted "engine" "engine          " (by decide),
    hquoted "scenario_path" "scenario_path   " (by decide),
    hquoted "gguf_file" "gguf_file       " (by decide),
    hquoted "docker_image" "docker_image    " (by decide),
    hnumber "download_timeout_seconds" "download_timeout_seconds = " (by decide),
    hnumber "engine_health_timeout_seconds" "engine_health_timeout_seconds = " (by decide),
    ← toList_scenarioVar]
  unfold tfvars instanceSku dockerImage
  simp only [String.toList_append, List.append_assoc]

/-! ## Settings -/

theorem strip_infix (s : String) : (strip s).toList <:+: s.toList := by
  rw [strip, String.toList_ofList]
  exact (List.rdropWhile_prefix isSpace _).isInfix.trans (List.dropWhile_suffix _).isInfix

theorem verbatim_commaList {s : String} (h : Verbatim s.toList) :
    ∀ x ∈ (commaList s).map String.toList, Verbatim x := by
  intro x hx
  obtain ⟨item, hitem, rfl⟩ := List.mem_map.1 hx
  obtain ⟨piece, hpiece, rfl⟩ := List.mem_map.1 (List.mem_of_mem_filter hitem)
  have hin := strip_infix (String.ofList piece)
  rw [String.toList_ofList] at hin
  exact h.infix (hin.trans (Text.infix_of_mem_splitOnP hpiece))

theorem isDecimal_of_octet {text ds rest : List Char} (h : octet text = some (ds, rest)) :
    ∀ c ∈ ds, isDecimal c = true := by
  unfold octet at h
  dsimp only at h
  split at h
  · cases h
  · cases h
    exact fun c hc => List.mem_takeWhile_imp hc

theorem verbatim_extractIp {url ip : String} (h : extractIp url = some ip) :
    Verbatim (ip ++ "/32").toList := by
  obtain ⟨rest, -, h⟩ := Option.bind_eq_some_iff.1 h
  obtain ⟨rest, -, h⟩ := Option.bind_eq_some_iff.1 h
  obtain ⟨⟨a, rest⟩, ha, h⟩ := Option.bind_eq_some_iff.1 h
  obtain ⟨dot, -, h⟩ := Option.bind_eq_some_iff.1 h
  obtain ⟨⟨b, rest⟩, hb, h⟩ := Option.bind_eq_some_iff.1 h
  obtain ⟨dot, -, h⟩ := Option.bind_eq_some_iff.1 h
  obtain ⟨⟨c, rest⟩, hc, h⟩ := Option.bind_eq_some_iff.1 h
  obtain ⟨dot, -, h⟩ := Option.bind_eq_some_iff.1 h
  obtain ⟨⟨d, rest⟩, hd, h⟩ := Option.bind_eq_some_iff.1 h
  cases h
  have hslash : "/32".toList = ['/', '3', '2'] := by decide
  refine verbatim_of_forall fun x hx hm => ?_
  have hmarks : (['"', '\\', '\n', '\r', '$', '%'].all fun y =>
      isDecimal y = false ∧ y ∉ ['.', '/', '3', '2']) = true := by decide
  obtain ⟨hdec, hpunct⟩ := of_decide_eq_true (List.all_eq_true.1 hmarks x hm)
  have hno : ∀ {text ds rest : List Char}, octet text = some (ds, rest) → x ∉ ds := by
    intro text ds rest ho hmem
    rw [isDecimal_of_octet ho x hmem] at hdec
    cases hdec
  rw [String.toList_append, String.toList_ofList, hslash] at hx
  simp [hno ha, hno hb, hno hc, hno hd] at hx hpunct
  tauto

theorem verbatim_adminCidrs {cfg : Config} (h : cfg.PlainSettings) :
    ∀ x ∈ (adminCidrs cfg).map String.toList, Verbatim x := by
  have hlist := verbatim_commaList h.adminCidrs
  unfold adminCidrs
  dsimp only
  split
  · next ip hip =>
    split
    · exact hlist
    · intro x hx
      rw [List.map_append, List.mem_append, List.map_singleton, List.mem_singleton] at hx
      rcases hx with hx | rfl
      · exact hlist x hx
      · exact verbatim_extractIp hip
  · exact hlist

theorem verbatim_uuidStr (r : RunId) : Verbatim (uuidStr r).toList := by
  refine verbatim_of_forall fun c hc hm => ?_
  have hdigit : ∀ n < 16, Nat.digitChar n ∉ ['"', '\\', '\n', '\r', '$', '%'] := by decide
  have hhex : ∀ {start len : Nat}, c ∉ hexDigits r start len := by
    intro start len h
    obtain ⟨i, -, rfl⟩ := List.mem_map.1 h
    exact hdigit _ (Nat.mod_lt _ (by decide)) hm
  rw [uuidStr, String.toList_ofList] at hc
  simp only [List.mem_append, List.mem_cons, hhex, or_false, false_or] at hc
  obtain rfl : c = '-' := by tauto
  revert hm
  decide

theorem isName_toList {name : String} (h : name.toList.head?.any startsIdentifier = true ∧
    name.toList.all isIdentifier = true) : IsName name.toList where
  starts := by
    obtain ⟨c, hc, hs⟩ := (Option.any_eq_true _ _).1 h.1
    obtain ⟨cs, hcs⟩ := List.head?_eq_some_iff.1 hc
    exact ⟨c, cs, hcs, hs⟩
  all := List.all_eq_true.1 h.2

theorem isSpacing_padding (name : String) : ∀ c ∈ padding name, isSpacing c = true := by
  intro c hc
  rw [List.eq_of_mem_replicate hc]
  decide

def varNames : List String :=
  ["run_id", "gpu_type", "instance_type", "orchestrator_url", "gpu_zone", "ssh_public_keys",
    "admin_cidrs", "model", "engine", "scenario_path", "gguf_file", "docker_image",
    "download_timeout_seconds", "engine_health_timeout_seconds", "scenario_content"]

theorem isName_varNames : ∀ name ∈ varNames, IsName name.toList := by
  have hall : ∀ name ∈ varNames, name.toList.head?.any startsIdentifier = true ∧
    name.toList.all isIdentifier = true := by decide
  exact fun name h => isName_toList (hall name h)

section
variable {lenient : Bool} {cfg : Config} {run : Run} {scenario : String}

theorem names_varLines : (varLines lenient cfg run scenario).map (fun l => l.assigns.name) =
    varNames.map String.toList := rfl

theorem nodup_names : (varNames.map String.toList).Nodup := by decide

theorem exact_varLines (h : cfg.PlainSettings) :
    ∀ l ∈ varLines lenient cfg run scenario, l.Exact lenient := by
  have hquoted : ∀ name ∈ varNames, ∀ value, (quotedVar name value).Exact lenient :=
    fun name hn _ => quotedLine_exact (isName_varNames name hn) (isSpacing_padding name) _
  have hlist : ∀ name ∈ varNames, ∀ values : List String,
      (∀ x ∈ values.map String.toList, Verbatim x) → (listVar name values).Exact lenient :=
    fun name hn _ hv => listLine_exact (isName_varNames name hn) (isSpacing_padding name) hv
  have hnumber : ∀ name ∈ varNames, ∀ n, (numberVar name n).Exact lenient :=
    fun name hn n => numberLine_exact (isName_varNames name hn) (isSpacing_padding name) n
  have hdelim : IsName "EOT_SCENARIO".toList := isName_toList (by decide)
  simp only [varLines, List.forall_mem_cons]
  refine ⟨hquoted _ (by decide) _, hquoted _ (by decide) _, hquoted _ (by decide) _,
    hquoted _ (by decide) _, hquoted _ (by decide) _,
    hlist _ (by decide) _ (verbatim_commaList h.sshPublicKeys),
    hlist _ (by decide) _ (verbatim_adminCidrs h),
    hquoted _ (by decide) _, hquoted _ (by decide) _, hquoted _ (by decide) _,
    hquoted _ (by decide) _, hquoted _ (by decide) _, hnumber _ (by decide) _,
    hnumber _ (by decide) _,
    heredocLine_exact (isName_varNames _ (by decide)) (isSpacing_padding _) hdelim _, ?_⟩
  exact fun l hl => absurd hl List.not_mem_nil

/-- What terraform should read: every variable once, the run's texts as they are, and the scenario
with its last line ended. -/
def assignments (cfg : Config) (run : Run) (scenario : String) : List Assignment :=
  [⟨"run_id".toList, .str (uuidStr run.id).toList⟩,
    ⟨"gpu_type".toList, .str run.gpuTypeRequired.value.toList⟩,
    ⟨"instance_type".toList, .str (instanceSku cfg run).toList⟩,
    ⟨"orchestrator_url".toList, .str cfg.orchestratorUrl.toList⟩,
    ⟨"gpu_zone".toList, .str cfg.gpuZone.toList⟩,
    ⟨"ssh_public_keys".toList, .list ((commaList cfg.sshPublicKeys).map String.toList)⟩,
    ⟨"admin_cidrs".toList, .list ((adminCidrs cfg).map String.toList)⟩,
    ⟨"model".toList, .str run.model.toList⟩,
    ⟨"engine".toList, .str run.engine.value.toList⟩,
    ⟨"scenario_path".toList, .str run.scenarioPath.toList⟩,
    ⟨"gguf_file".toList, .str (run.ggufFile.getD "").toList⟩,
    ⟨"docker_image".toList, .str (dockerImage cfg run).toList⟩,
    ⟨"download_timeout_seconds".toList, .num cfg.downloadTimeoutSeconds⟩,
    ⟨"engine_health_timeout_seconds".toList, .num cfg.engineHealthTimeoutSeconds⟩,
    ⟨"scenario_content".toList, .str ((scenarioFor run scenario).toList ++ ['\n'])⟩]

theorem good_varLines (h : cfg.PlainSettings) :
    (∀ l ∈ varLines lenient cfg run scenario, l.good) ↔
      Verbatim run.model.toList ∧ Verbatim run.scenarioPath.toList ∧
      Verbatim (run.ggufFile.getD "").toList ∧
      ∀ l ∈ (scenarioFor run scenario).toList.splitOn '\n',
        closes lenient "EOT_SCENARIO".toList l = false := by
  have htype : ∀ g : GpuType, Verbatim g.value.toList ∧ Verbatim (instanceType g).toList := by
    intro g
    cases g <;> decide
  have hengine : ∀ e : Engine, Verbatim e.value.toList := by
    intro e
    cases e <;> decide
  have hsku : Verbatim (instanceSku cfg run).toList := by
    unfold instanceSku
    split
    · exact h.instanceType
    · exact (htype _).2
  have himage : Verbatim (dockerImage cfg run).toList := by
    unfold dockerImage
    split
    · exact h.dockerImageVllm
    · exact h.dockerImageLlamacpp
  have hgpu := (htype run.gpuTypeRequired).1
  have heng := hengine run.engine
  have huuid := verbatim_uuidStr run.id
  have hurl := h.orchestratorUrl
  have hzone := h.gpuZone
  simp only [varLines, List.forall_mem_cons, quotedVar, quotedLine, listVar, listLine, numberVar,
    numberLine, heredocLine]
  constructor
  · rintro ⟨-, -, -, -, -, -, -, hmodel, -, hpath, hgguf, -, -, -, hclose, -⟩
    exact ⟨hmodel, hpath, hgguf, hclose⟩
  · rintro ⟨hmodel, hpath, hgguf, hclose⟩
    exact ⟨huuid, hgpu, hsku, hurl, hzone, trivial, trivial, hmodel, heng, hpath, hgguf, himage,
      trivial, trivial, hclose, fun l hl => absurd hl List.not_mem_nil⟩

theorem read_iff_good (h : cfg.PlainSettings) :
    Hcl.read lenient (tfvars cfg run scenario).toList = some (assignments cfg run scenario) ↔
      ∀ l ∈ varLines lenient cfg run scenario, l.good := by
  have hassign : assignments cfg run scenario =
    (varLines lenient cfg run scenario).map Line.assigns := rfl
  rw [hassign, toList_tfvars lenient]
  exact read_lines (exact_varLines h) (by rw [names_varLines]; exact nodup_names)

/-- The variables are read as they should exactly when the model, the scenario path and the name of
the gguf file are plain and no line of the scenario is the delimiter. -/
theorem read_tfvars_iff (h : cfg.PlainSettings) :
    Hcl.read lenient (tfvars cfg run scenario).toList = some (assignments cfg run scenario) ↔
      Verbatim run.model.toList ∧ Verbatim run.scenarioPath.toList ∧
      Verbatim (run.ggufFile.getD "").toList ∧
      ∀ l ∈ (scenarioFor run scenario).toList.splitOn '\n',
        closes lenient "EOT_SCENARIO".toList l = false :=
  (read_iff_good h).trans (good_varLines h)

end

theorem plainSettings_sample : Sample.config.PlainSettings := by
  constructor <;> decide

theorem read_tfvars_sample :
    let scenario := "model: $\x7bMODEL\x7d\nlevels: [1]\n"
    Hcl.read true (tfvars Sample.config Sample.run scenario).toList =
      some (assignments Sample.config Sample.run scenario) :=
  (read_tfvars_iff plainSettings_sample).2 ⟨by decide, by decide, by decide, by decide⟩

/-- A quote in the name of the model ends its string. -/
theorem read_tfvars_quote : ¬ ∀ (lenient : Bool) (cfg : Config) (run : Run) (scenario : String),
    cfg.PlainSettings →
    Hcl.read lenient (tfvars cfg run scenario).toList = some (assignments cfg run scenario) := by
  intro h
  have hread := h false Sample.config { Sample.run with model := "m\"x" } "load\n"
    plainSettings_sample
  rw [read_iff_good plainSettings_sample, good_varLines plainSettings_sample] at hread
  exact absurd hread.1 (by decide)

end GrillPlatform
