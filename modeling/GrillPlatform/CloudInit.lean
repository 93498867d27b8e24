import GrillPlatform.Yaml.Scalars

/-! What a GPU machine does at its first start: `cloud-init.tpl.yaml` with the values of its
variables, and the files and commands that cloud-init reads from it. Its reader is not of this
repository; it is taken as a function of which the rules of YAML for such documents are known. -/

namespace GrillPlatform.CloudInit
open YamlText

/-- The variables of the template; `scenario_path` is not used in it. -/
structure Vars where
  runId : List Char
  orchestratorUrl : List Char
  hfToken : List Char
  orchestratorApiKey : List Char
  model : List Char
  engine : List Char
  ggufFile : List Char
  scenarioContent : List Char
  dockerImage : List Char
  downloadTimeoutSeconds : List Char
  engineHealthTimeoutSeconds : List Char

def fileHead (path : String) (permissions : Option String) : List Line :=
  ("  - path: ".toList ++ path.toList) ::
    ((permissions.map fun p => "    permissions: ".toList ++ '"' :: (p.toList ++ ['"'])).toList ++
      ["    content: |".toList])

/-- An entry of `write_files`, whose content is a literal scalar. -/
structure Entry where
  path : String
  permissions : Option String
  body : List Line

def Entry.lines (e : Entry) : List Line := fileHead e.path e.permissions ++ (e.body ++ [[]])

/-- The entries of `write_files`, and the items of `runcmd`. -/
structure Document where
  entries : List Entry
  items : List (List Char)

def Document.lines (d : Document) : List Line :=
  "#cloud-config".toList :: [] :: "write_files:".toList ::
    (d.entries.flatMap Entry.lines ++ "runcmd:".toList :: d.items.map ("  - ".toList ++ ·))

def Document.text (d : Document) : List Char := d.lines.flatMap (· ++ ['\n'])

structure File where
  path : List Char
  permissions : Option (List Char)
  content : List Char
deriving DecidableEq

structure UserData where
  files : List File
  commands : List (List Char)
deriving DecidableEq

/-- The document has nothing in it that the rules below do not speak of. -/
structure Document.Plain (d : Document) : Prop where
  printable : ∀ l ∈ d.lines, Printable l
  paths : ∀ e ∈ d.entries, IsPlain e.path.toList
  permissions : ∀ e ∈ d.entries, ∀ p ∈ e.permissions, '"' ∉ p.toList ∧ '\\' ∉ p.toList
  bodies : ∀ e ∈ d.entries, Indented 6 e.body
  shown : d.entries ≠ [] ∧ d.items ≠ []

/-- The file of an entry: under `content`, in column 4, stands its text. -/
structure Entry.Writes (e : Entry) (f : File) : Prop where
  path : f.path = e.path.toList
  permissions : f.permissions = e.permissions.map String.toList
  content : Literal 4 e.body f.content

/-- What is known of cloud-init: it reads a document whose scalars are as YAML has them, and a text
it reads from a literal scalar is indented as its first line is, so it does not show a space
first. -/
structure Reads (read : List Char → Option UserData) : Prop where
  document : ∀ (d : Document) (u : UserData), d.Plain →
    List.Forall₂ Entry.Writes d.entries u.files → List.Forall₂ Scalar d.items u.commands →
    read d.text = some u
  unindented : ∀ (d : Document) (u : UserData), d.Plain → read d.text = some u →
    ∀ f ∈ u.files, Unindented f.content

def environment (v : Vars) : List (List Char × List Char) :=
  [("RUN_ID".toList, v.runId), ("ORCHESTRATOR_URL".toList, v.orchestratorUrl),
    ("HF_TOKEN".toList, v.hfToken), ("ORCHESTRATOR_API_KEY".toList, v.orchestratorApiKey),
    ("MODEL".toList, v.model), ("ENGINE".toList, v.engine),
    ("SCENARIO".toList, "/etc/llmgrill/scenario.yaml".toList), ("GGUF_FILE".toList, v.ggufFile),
    ("DOWNLOAD_TIMEOUT_SECONDS".toList, v.downloadTimeoutSeconds),
    ("ENGINE_HEALTH_TIMEOUT_SECONDS".toList, v.engineHealthTimeoutSeconds)]

def failReport : List Line :=
  ["#!/bin/sh",
    ". /etc/llmgrill/env",
    "curl -sf -X POST \"$\x7bORCHESTRATOR_URL\x7d/runs/$\x7bRUN_ID\x7d/fail\" \\",
    "  -H \"Content-Type: application/json\" \\",
    "  -H \"X-API-Key: $\x7bORCHESTRATOR_API_KEY\x7d\" \\",
    "  -d \"$(jq -n --arg msg \"$1\" '\x7berror_message: $msg\x7d')\" || true"].map String.toList

def service (v : Vars) : List Line :=
  ["[Unit]",
    "Description=llm-grill benchmark runner",
    "After=network-online.target docker.service",
    "Wants=network-online.target",
    "Requires=docker.service",
    "",
    "[Service]",
    "Type=oneshot",
    "ExecStart=docker run --rm --gpus all \\",
    "  --env-file /etc/llmgrill/env \\",
    "  -v /etc/llmgrill/scenario.yaml:/etc/llmgrill/scenario.yaml \\",
    "  -v /opt/models:/opt/models \\"].map String.toList ++
  ("  ".toList ++ v.dockerImage) ::
  ["ExecStopPost=/bin/sh -c 'test \"$SERVICE_RESULT\" = \"success\" || " ++
      "/etc/llmgrill/fail-report.sh \"runner exited: $SERVICE_RESULT (exit $EXIT_STATUS)\"'",
    "StandardOutput=journal",
    "StandardError=journal",
    "",
    "[Install]",
    "WantedBy=multi-user.target"].map String.toList

def dockerPull (v : Vars) : List Char :=
  "docker pull ".toList ++ v.dockerImage ++
    " || \x7b /etc/llmgrill/fail-report.sh \"docker pull failed: ".toList ++ v.dockerImage ++
    "\"; exit 1; \x7d".toList

/-- A line of the template in the column of the texts; empty lines are empty there. -/
def column (l : Line) : Line := if l.isEmpty then [] else pad 6 ++ l

/-- The template, with the lines of the scenario in their place. -/
def document (v : Vars) (scenario : List (List Char)) : Document where
  entries :=
    [⟨"/etc/llmgrill/env", some "0600",
        ((environment v).map fun q => q.1 ++ '=' :: q.2).map column⟩,
      ⟨"/etc/llmgrill/scenario.yaml", some "0644", scenario⟩,
      ⟨"/etc/llmgrill/fail-report.sh", some "0755", failReport.map column⟩,
      ⟨"/etc/systemd/system/llmgrill-runner.service", none, (service v).map column⟩]
  items :=
    ["nvidia-smi -pm 1",
      "apt-get update -y && apt-get install -y nvidia-container-toolkit jq",
      "nvidia-ctk runtime configure --runtime=docker",
      "systemctl restart docker"].map String.toList ++
    ['\'' :: (dockerPull v ++ ['\'']),
      "systemctl enable --now llmgrill-runner.service".toList]

/-- `indent(6, scenario_content)`, after the six spaces of the template. -/
def template (v : Vars) : List Char :=
  (document v [pad 6 ++ indent 6 v.scenarioContent]).text

/-- Texts without line breaks, and an image that a pair of quotes can hold. -/
structure Vars.Printable (v : Vars) : Prop where
  texts : ∀ t ∈ [v.runId, v.orchestratorUrl, v.hfToken, v.orchestratorApiKey, v.model, v.engine,
    v.ggufFile, v.dockerImage, v.downloadTimeoutSeconds, v.engineHealthTimeoutSeconds],
    YamlText.Printable t
  scenario : ∀ c ∈ v.scenarioContent, isPrintable c = true ∨ c = '\n'
  image : '\'' ∉ v.dockerImage

section
variable {v : Vars}

theorem printable_append {s t : List Char} : Printable (s ++ t) ↔ Printable s ∧ Printable t :=
  List.forall_mem_append

theorem printable_cons {c : Char} {t : List Char} :
    Printable (c :: t) ↔ isPrintable c = true ∧ Printable t := List.forall_mem_cons

theorem printable_column {l : Line} (h : Printable l) : Printable (column l) := by
  unfold column
  split
  · exact fun c hc => absurd hc List.not_mem_nil
  · refine printable_append.2 ⟨fun c hc => ?_, h⟩
    rw [List.eq_of_mem_replicate hc]
    decide

theorem printable_failReport : ∀ l ∈ failReport, Printable l := by decide +kernel

theorem printable_names : ∀ q ∈ environment v, Printable q.1 := by
  refine List.forall_mem_map (P := Printable).1 ?_
  rw [environment, List.map_cons]
  simp only [List.map_cons, List.map_nil]
  decide

theorem printable_values (hv : v.Printable) : ∀ q ∈ environment v, Printable q.2 := by
  have hpath : Printable "/etc/llmgrill/scenario.yaml".toList := by decide
  have htexts := hv.texts
  simp only [List.forall_mem_cons] at htexts
  obtain ⟨h1, h2, h3, h4, h5, h6, h7, -, h8, h9, hnil⟩ := htexts
  refine List.forall_mem_map (P := Printable).1 ?_
  simp only [environment, List.map_cons, List.map_nil, List.forall_mem_cons]
  exact ⟨h1, h2, h3, h4, h5, h6, hpath, h7, h8, h9, hnil⟩

theorem printable_environment (hv : v.Printable) :
    ∀ l ∈ (environment v).map (fun q => q.1 ++ '=' :: q.2), Printable l := by
  intro l hl
  obtain ⟨q, hq, rfl⟩ := List.mem_map.1 hl
  have hvalue : Printable ('=' :: q.2) := printable_cons.2 ⟨by decide, printable_values hv q hq⟩
  exact printable_append.2 ⟨printable_names q hq, hvalue⟩

theorem printable_image (hv : v.Printable) : Printable v.dockerImage := hv.texts _ (by simp)

theorem printable_service (hv : v.Printable) : ∀ l ∈ service v, Printable l := by
  have hspace : Printable "  ".toList := by decide
  rw [service, List.forall_mem_append, List.forall_mem_cons]
  refine ⟨?_, printable_append.2 ⟨hspace, printable_image hv⟩, ?_⟩
  · decide +kernel
  · decide +kernel

theorem printable_dockerPull (hv : v.Printable) : Printable (dockerPull v) := by
  have himage := printable_image hv
  have hpull : Printable ("docker pull ".toList ++ v.dockerImage) :=
    printable_append.2 ⟨by decide, himage⟩
  have hreport : Printable ("docker pull ".toList ++ v.dockerImage ++
      " || \x7b /etc/llmgrill/fail-report.sh \"docker pull failed: ".toList) :=
    printable_append.2 ⟨hpull, by decide⟩
  exact printable_append.2 ⟨printable_append.2 ⟨hreport, himage⟩, by decide⟩

theorem printable_items (hv : v.Printable) : ∀ c ∈ (document v ls).items, Printable c := by
  have hquoted : Printable ('\'' :: (dockerPull v ++ ['\''])) :=
    printable_cons.2 ⟨by decide, printable_append.2 ⟨printable_dockerPull hv, by decide⟩⟩
  refine List.forall_mem_append.2 ⟨?_, List.forall_mem_cons.2 ⟨hquoted, ?_⟩⟩
  · decide +kernel
  · decide

def scenarioLines (v : Vars) : List Line := (v.scenarioContent.splitOn '\n').map (pad 6 ++ ·)

theorem template_eq (v : Vars) : template v = (document v (scenarioLines v)).text := by
  have hlines : (scenarioLines v).flatMap (· ++ ['\n']) =
      (pad 6 ++ indent 6 v.scenarioContent) ++ ['\n'] := by
    rw [scenarioLines, ← splitOn_indent, flatMap_splitOn]
  simp only [template, Document.text, Document.lines, document, Entry.lines, List.flatMap_cons,
    List.flatMap_nil, List.flatMap_append, hlines, List.append_nil]

theorem printable_scenarioLines (hv : v.Printable) : ∀ l ∈ scenarioLines v, Printable l := by
  intro l hl
  obtain ⟨x, hx, rfl⟩ := List.mem_map.1 hl
  refine printable_append.2 ⟨fun c hc => ?_, fun c hc => ?_⟩
  · rw [List.eq_of_mem_replicate hc]
    decide
  · rcases hv.scenario c ((Text.infix_of_mem_splitOnP hx).subset hc) with hprintable | rfl
    · exact hprintable
    · exact absurd hc (Text.not_mem_of_mem_splitOn hx)

theorem printable_columns {ls : List Line} (h : ∀ l ∈ ls, Printable l) :
    ∀ l ∈ ls.map column, Printable l := by
  intro l hl
  obtain ⟨x, hx, rfl⟩ := List.mem_map.1 hl
  exact printable_column (h x hx)

theorem indented_columns (ls : List Line) : Indented 6 (ls.map column) := by
  intro b hb
  obtain ⟨l, -, rfl⟩ := List.mem_map.1 hb
  unfold column
  split
  · exact .inl rfl
  · exact .inr ⟨l, rfl⟩

theorem indented_scenarioLines (v : Vars) : Indented 6 (scenarioLines v) := by
  intro b hb
  obtain ⟨l, -, rfl⟩ := List.mem_map.1 hb
  exact .inr ⟨l, rfl⟩

theorem plain_document (hv : v.Printable) : (document v (scenarioLines v)).Plain where
  printable := by
    have hlines : ∀ e ∈ (document v (scenarioLines v)).entries, ∀ l ∈ e.lines, Printable l := by
      have henv := printable_columns (printable_environment hv)
      have hreport := printable_columns printable_failReport
      have hservice := printable_columns (printable_service hv)
      have hentry : ∀ path permissions body, (∀ l ∈ fileHead path permissions, Printable l) →
          (∀ l ∈ body, Printable l) → ∀ l ∈ (Entry.mk path permissions body).lines, Printable l :=
        fun _ _ _ hhead hbody =>
          List.forall_mem_append.2 ⟨hhead, List.forall_mem_append.2 ⟨hbody, by decide⟩⟩
      simp only [document, List.forall_mem_cons]
      exact ⟨hentry _ _ _ (by decide) henv, hentry _ _ _ (by decide) (printable_scenarioLines hv),
        hentry _ _ _ (by decide) hreport, hentry _ _ _ (by decide) hservice,
        fun e he => absurd he List.not_mem_nil⟩
    have hitems : ∀ l ∈ (document v (scenarioLines v)).items.map ("  - ".toList ++ ·),
        Printable l :=
      List.forall_mem_map.2 fun c hc =>
        printable_append.2 ⟨by decide, printable_items hv c hc⟩
    rw [Document.lines]
    simp only [List.forall_mem_cons, List.forall_mem_append]
    refine ⟨by decide, by decide, by decide, fun l hl => ?_, by decide, hitems⟩
    obtain ⟨e, he, hl⟩ := List.mem_flatMap.1 hl
    exact hlines e he l hl
  paths := by
    simp only [document, List.forall_mem_cons]
    exact ⟨by decide, by decide, by decide, by decide, fun e he => absurd he List.not_mem_nil⟩
  permissions := by
    simp only [document, List.forall_mem_cons]
    exact ⟨by decide, by decide, by decide, nofun, fun e he => absurd he List.not_mem_nil⟩
  bodies := by
    simp only [document, List.forall_mem_cons]
    exact ⟨indented_columns _, indented_scenarioLines v, indented_columns _, indented_columns _,
      fun e he => absurd he List.not_mem_nil⟩
  shown := ⟨List.cons_ne_nil _ _, List.cons_ne_nil _ _⟩

/-! ## What is read from the template -/

def files (v : Vars) : List File :=
  [⟨"/etc/llmgrill/env".toList, some "0600".toList,
      ((environment v).map fun q => q.1 ++ '=' :: q.2).flatMap (· ++ ['\n'])⟩,
    ⟨"/etc/llmgrill/scenario.yaml".toList, some "0644".toList, ended v.scenarioContent⟩,
    ⟨"/etc/llmgrill/fail-report.sh".toList, some "0755".toList, failReport.flatMap (· ++ ['\n'])⟩,
    ⟨"/etc/systemd/system/llmgrill-runner.service".toList, none,
      (service v).flatMap (· ++ ['\n'])⟩]

def commands (v : Vars) : List (List Char) :=
  ["nvidia-smi -pm 1",
    "apt-get update -y && apt-get install -y nvidia-container-toolkit jq",
    "nvidia-ctk runtime configure --runtime=docker",
    "systemctl restart docker"].map String.toList ++
  [dockerPull v, "systemctl enable --now llmgrill-runner.service".toList]

theorem drop_columns (ls : List Line) : (ls.map column).map (List.drop 6) = ls := by
  have hdrop : ∀ l ∈ ls, (List.drop 6 ∘ column) l = id l := by
    intro l _
    cases l with
    | nil => rfl
    | cons c l => exact drop_pad 6 (c :: l)
  rw [List.map_map, List.map_congr_left hdrop, List.map_id]

theorem drop_scenarioLines (v : Vars) :
    (scenarioLines v).map (List.drop 6) = v.scenarioContent.splitOn '\n' := by
  rw [scenarioLines, List.map_map]
  exact (List.map_congr_left fun l _ => drop_pad 6 l).trans (List.map_id _)

theorem literal_columns {ls : List Line} {l : Line} (hs : Starts ls)
    (hlast : ls.getLast? = some l) (hl : l ≠ []) :
    Literal 4 (ls.map column) (ls.flatMap (· ++ ['\n'])) := by
  have hread := literal_indented (by decide : 4 < 6) (indented_columns ls) (by rwa [drop_columns])
  rwa [drop_columns, clip_of_getLast hlast hl] at hread

theorem literal_scenarioLines (hs : Starts (v.scenarioContent.splitOn '\n')) :
    Literal 4 (scenarioLines v) (ended v.scenarioContent) := by
  have hread := literal_indented (by decide : 4 < 6) (indented_scenarioLines v)
    (by rwa [drop_scenarioLines])
  rwa [drop_scenarioLines, clip_splitOn] at hread

theorem writes_files (hs : Starts (v.scenarioContent.splitOn '\n')) :
    List.Forall₂ Entry.Writes (document v (scenarioLines v)).entries (files v) := by
  have henv : Starts ((environment v).map fun q => q.1 ++ '=' :: q.2) :=
    (starts_iff 0 'R' _ _).2 (by decide)
  have hreport : Starts failReport := (starts_iff 0 '#' _ _).2 (by decide)
  have hservice : Starts (service v) := (starts_iff 0 '[' _ _).2 (by decide)
  have hlast : (service v).getLast? = some "WantedBy=multi-user.target".toList := rfl
  exact .cons ⟨rfl, rfl, literal_columns henv rfl (by nofun)⟩
    (.cons ⟨rfl, rfl, literal_scenarioLines hs⟩
    (.cons ⟨rfl, rfl, literal_columns hreport rfl (by decide)⟩
    (.cons ⟨rfl, rfl, literal_columns hservice hlast (by decide)⟩ .nil)))

theorem scalar_items (hv : v.Printable) :
    List.Forall₂ Scalar (document v (scenarioLines v)).items (commands v) := by
  have hpull : '\'' ∉ dockerPull v :=
    List.not_mem_append (List.not_mem_append (List.not_mem_append
      (List.not_mem_append (by decide) hv.image) (by decide)) hv.image) (by decide)
  have hplain : ∀ c ∈ ["nvidia-smi -pm 1",
      "apt-get update -y && apt-get install -y nvidia-container-toolkit jq",
      "nvidia-ctk runtime configure --runtime=docker", "systemctl restart docker",
      "systemctl enable --now llmgrill-runner.service"].map String.toList, IsPlain c := by
    decide +kernel
  exact .cons (.plain (hplain _ (by simp))) (.cons (.plain (hplain _ (by simp)))
    (.cons (.plain (hplain _ (by simp))) (.cons (.plain (hplain _ (by simp)))
    (.cons (.single hpull) (.cons (.plain (hplain _ (by simp))) .nil)))))

/-- The machine gets the files and commands of the template, if the first line of the scenario with
anything on it does not start with a space. -/
theorem read_template {read : List Char → Option UserData} (hread : Reads read) (hv : v.Printable)
    (hs : Starts (v.scenarioContent.splitOn '\n')) :
    read (template v) = some ⟨files v, commands v⟩ := by
  rw [template_eq]
  exact hread.document _ _ (plain_document hv) (writes_files hs) (scalar_items hv)

/-- If it gets a file with the scenario in it, that is so. -/
theorem starts_of_read {read : List Char → Option UserData} (hread : Reads read) (hv : v.Printable)
    {u : UserData} {f : File} (hu : read (template v) = some u) (hf : f ∈ u.files)
    (hcontent : f.content = ended v.scenarioContent) :
    Starts (v.scenarioContent.splitOn '\n') := by
  rw [template_eq] at hu
  have hscenario := hread.unindented _ _ (plain_document hv) hu f hf
  rwa [hcontent, ← clip_splitOn, unindented_clip fun l hl => Text.not_mem_of_mem_splitOn hl]
    at hscenario

end

end GrillPlatform.CloudInit
