import GrillPlatform.Storage
import GrillPlatform.Text.Cut
import Mathlib.Logic.Relation

/-! The texts of the per-model object keys. The path of a key can be read back from its text, but a
slug does not tell a `/` from the `__` that stands for it. -/

namespace GrillPlatform

/-- A call of one of the four functions that build the key of a model's object. -/
inductive KeyCall where
  | runResults (model : String) (engine : Engine) (runId : RunId)
  | runLogs (model : String) (engine : Engine) (runId : RunId)
  | latestResults (model : String) (engine : Engine)
  | latestMeta (model : String) (engine : Engine)
  deriving DecidableEq

namespace KeyCall

def key : KeyCall → S3Key
  | .runResults m e r => runResultsKey m e r
  | .runLogs m e r => runLogsKey m e r
  | .latestResults m e => latestResultsKey m e
  | .latestMeta m e => latestMetaKey m e

def model : KeyCall → String
  | .runResults m _ _ | .runLogs m _ _ | .latestResults m _ | .latestMeta m _ => m

def engine : KeyCall → Engine
  | .runResults _ e _ | .runLogs _ e _ | .latestResults _ e | .latestMeta _ e => e

def withModel : KeyCall → String → KeyCall
  | .runResults _ e r, m => .runResults m e r
  | .runLogs _ e r, m => .runLogs m e r
  | .latestResults _ e, m => .latestResults m e
  | .latestMeta _ e, m => .latestMeta m e

end KeyCall

/-- One `/` of the first model is a `__` in the second. -/
def Exchanged (m m' : String) : Prop :=
  ∃ u v : List Char, m.toList = u ++ '/' :: v ∧ m'.toList = u ++ '_' :: '_' :: v

/-- The models can be turned into each other by exchanging `/` and `__`. -/
def Interchangeable : String → String → Prop := Relation.EqvGen Exchanged

def slugChars (cs : List Char) : List Char :=
  cs.flatMap fun c => if c = '/' then ['_', '_'] else [c]

theorem toList_slug (m : String) : (slug m).toList = slugChars m.toList := String.toList_ofList

theorem slugChars_append (a b : List Char) : slugChars (a ++ b) = slugChars a ++ slugChars b :=
  List.flatMap_append

theorem slash_notMem_slug (m : String) : '/' ∉ (slug m).toList := by
  rw [toList_slug, slugChars, List.mem_flatMap]
  rintro ⟨c, -, hc⟩
  split at hc
  · simp at hc
  · rename_i hne
    exact hne (List.mem_singleton.1 hc).symm

theorem slug_of_exchanged {m m' : String} (h : Exchanged m m') : slug m = slug m' := by
  obtain ⟨u, v, hm, hm'⟩ := h
  apply String.toList_injective
  rw [toList_slug, toList_slug, hm, hm', slugChars_append, slugChars_append]
  simp [slugChars]

theorem interchangeable_slug (m : String) : Interchangeable m (slug m) := by
  have key : ∀ (done rest : List Char), Interchangeable (String.ofList (done ++ rest))
      (String.ofList (done ++ slugChars rest)) := by
    intro done rest
    induction rest generalizing done with
    | nil => exact .refl _
    | cons c cs ih =>
      by_cases hc : c = '/'
      · subst hc
        refine .trans _ (String.ofList (done ++ '_' :: '_' :: cs)) _
          (.rel _ _ ⟨done, cs, String.toList_ofList, String.toList_ofList⟩) ?_
        have h := ih (done ++ ['_', '_'])
        rw [List.append_assoc, List.append_assoc] at h
        exact h
      · have h := ih (done ++ [c])
        rw [List.append_assoc, List.append_assoc] at h
        rw [show slugChars (c :: cs) = [c] ++ slugChars cs by simp [slugChars, hc]]
        exact h
  have h := key [] m.toList
  rwa [List.nil_append, List.nil_append, String.ofList_toList] at h

theorem slug_eq_iff {m m' : String} : slug m = slug m' ↔ Interchangeable m m' := by
  constructor
  · intro h
    exact (interchangeable_slug m).trans _ _ _ (h ▸ (interchangeable_slug m').symm)
  · intro h
    induction h with
    | rel _ _ h => exact slug_of_exchanged h
    | refl => rfl
    | symm _ _ _ ih => exact ih.symm
    | trans _ _ _ _ _ ih ih' => exact ih.trans ih'

theorem slash_notMem_engine (e : Engine) : '/' ∉ e.value.toList := by cases e <;> decide

theorem engine_value_injective {e e' : Engine} (h : e.value.toList = e'.value.toList) : e = e' := by
  cases e <;> cases e' <;> first | rfl | exact absurd h (by decide)

theorem length_uuidStr (r : RunId) : (uuidStr r).toList.length = 36 := by
  simp [uuidStr, hexDigits]

/-- What stands behind the engine in a key. -/
def KeyCall.file : KeyCall → List Char
  | .runResults _ _ r => "runs/".toList ++ ((uuidStr r).toList ++ "/results.jsonl".toList)
  | .runLogs _ _ r => "runs/".toList ++ ((uuidStr r).toList ++ "/runner.log".toList)
  | .latestResults .. => "latest.jsonl".toList
  | .latestMeta .. => "latest.meta.json".toList

section
variable (s : String) (e : Engine) (r : RunId)

theorem toList_slash : "/".toList = ['/'] := by simp

theorem text_runResults : (S3Key.runResults s e r).text.toList = "results/".toList ++ (s.toList ++
    '/' :: (e.value.toList ++ '/' :: ("runs/".toList ++
      ((uuidStr r).toList ++ "/results.jsonl".toList)))) := by
  rw [show (S3Key.runResults s e r).text = "results/" ++ s ++ "/" ++ e.value ++ "/runs/" ++
    uuidStr r ++ "/results.jsonl" from rfl]
  have hruns : "/runs/".toList = '/' :: "runs/".toList := by simp
  simp only [String.toList_append, toList_slash, hruns, List.append_assoc, List.cons_append,
    List.nil_append]

theorem text_runLogs : (S3Key.runLogs s e r).text.toList = "results/".toList ++ (s.toList ++
    '/' :: (e.value.toList ++ '/' :: ("runs/".toList ++
      ((uuidStr r).toList ++ "/runner.log".toList)))) := by
  rw [show (S3Key.runLogs s e r).text = "results/" ++ s ++ "/" ++ e.value ++ "/runs/" ++
    uuidStr r ++ "/runner.log" from rfl]
  have hruns : "/runs/".toList = '/' :: "runs/".toList := by simp
  simp only [String.toList_append, toList_slash, hruns, List.append_assoc, List.cons_append,
    List.nil_append]

theorem text_latestResults : (S3Key.latestResults s e).text.toList = "results/".toList ++
    (s.toList ++ '/' :: (e.value.toList ++ '/' :: "latest.jsonl".toList)) := by
  rw [show (S3Key.latestResults s e).text = "results/" ++ s ++ "/" ++ e.value ++
    "/latest.jsonl" from rfl]
  have hlatest : "/latest.jsonl".toList = '/' :: "latest.jsonl".toList := by simp
  simp only [String.toList_append, toList_slash, hlatest, List.append_assoc, List.cons_append,
    List.nil_append]

theorem text_latestMeta : (S3Key.latestMeta s e).text.toList = "results/".toList ++
    (s.toList ++ '/' :: (e.value.toList ++ '/' :: "latest.meta.json".toList)) := by
  rw [show (S3Key.latestMeta s e).text = "results/" ++ s ++ "/" ++ e.value ++
    "/latest.meta.json" from rfl]
  have hmeta : "/latest.meta.json".toList = '/' :: "latest.meta.json".toList := by simp
  simp only [String.toList_append, toList_slash, hmeta, List.append_assoc, List.cons_append,
    List.nil_append]

end

theorem KeyCall.text_eq (c : KeyCall) : c.key.text.toList = "results/".toList ++
    ((slug c.model).toList ++ '/' :: (c.engine.value.toList ++ '/' :: c.file)) := by
  cases c with
  | runResults m e r => exact text_runResults (slug m) e r
  | runLogs m e r => exact text_runLogs (slug m) e r
  | latestResults m e => exact text_latestResults (slug m) e
  | latestMeta m e => exact text_latestMeta (slug m) e

theorem runs_ne_latest (x : List Char) : "runs/".toList ++ x ≠ "latest.jsonl".toList ∧
    "runs/".toList ++ x ≠ "latest.meta.json".toList := by simp

theorem latest_ne : "latest.jsonl".toList ≠ "latest.meta.json".toList := by simp

theorem KeyCall.eq_of_file {c c' : KeyCall} (h : c.file = c'.file) (hm : c.model = c'.model)
    (he : c.engine = c'.engine) : c = c' := by
  have hlen : ∀ r r' : RunId, (uuidStr r).toList.length = (uuidStr r').toList.length := fun r r' =>
    (length_uuidStr r).trans (length_uuidStr r').symm
  have huuid : ∀ {r r' : RunId} {a b : List Char}, "runs/".toList ++ ((uuidStr r).toList ++ a) =
      "runs/".toList ++ ((uuidStr r').toList ++ b) → r = r' ∧ a = b := fun {r r' a b} h => by
    obtain ⟨hr, hab⟩ := List.append_inj (List.append_cancel_left h) (hlen r r')
    exact ⟨uuidStr_injective (String.toList_injective hr), hab⟩
  -- the keys of a run have the id behind `runs/`, and differ behind the id
  cases c with
  | runResults m e r =>
    cases hm
    cases he
    cases c' with
    | runResults m' e' r' =>
      obtain ⟨rfl, -⟩ := huuid h
      rfl
    | runLogs m' e' r' => exact absurd (huuid h).2 (by simp)
    | latestResults => exact absurd h (runs_ne_latest _).1
    | latestMeta => exact absurd h (runs_ne_latest _).2
  | runLogs m e r =>
    cases hm
    cases he
    cases c' with
    | runLogs m' e' r' =>
      obtain ⟨rfl, -⟩ := huuid h
      rfl
    | runResults m' e' r' => exact absurd (huuid h).2 (by simp)
    | latestResults => exact absurd h (runs_ne_latest _).1
    | latestMeta => exact absurd h (runs_ne_latest _).2
  | latestResults m e =>
    cases hm
    cases he
    cases c' with
    | latestResults => rfl
    | latestMeta => exact absurd h latest_ne
    | _ => exact absurd h.symm (runs_ne_latest _).1
  | latestMeta m e =>
    cases hm
    cases he
    cases c' with
    | latestMeta => rfl
    | latestResults => exact absurd h.symm latest_ne
    | _ => exact absurd h.symm (runs_ne_latest _).2

theorem KeyCall.eq_of_text {c c' : KeyCall} (h : c.key.text = c'.key.text)
    (hm : c.model = c'.model) : c = c' := by
  rw [← String.toList_inj, text_eq, text_eq, hm] at h
  have h := (List.cons.inj (List.append_cancel_left (List.append_cancel_left h))).2
  obtain ⟨he, hf⟩ := Text.eq_of_cut (slash_notMem_engine _) (slash_notMem_engine _) h
  exact eq_of_file hf hm (engine_value_injective he)

theorem KeyCall.slug_of_text {c c' : KeyCall} (h : c.key.text = c'.key.text) :
    slug c.model = slug c'.model := by
  rw [← String.toList_inj, text_eq, text_eq] at h
  exact String.toList_injective
    (Text.eq_of_cut (slash_notMem_slug _) (slash_notMem_slug _) (List.append_cancel_left h)).1

theorem KeyCall.key_withModel {c : KeyCall} {m : String} (h : slug c.model = slug m) :
    (c.withModel m).key = c.key := by
  cases c <;> simp only [withModel, key, runResultsKey, runLogsKey, latestResultsKey, latestMetaKey,
    ← h, model]

/-- Two keys are the same text exactly when they are the keys of one function, engine and run for
interchangeable models. -/
theorem KeyCall.text_eq_iff {c c' : KeyCall} : c.key.text = c'.key.text ↔
    c' = c.withModel c'.model ∧ Interchangeable c.model c'.model := by
  constructor
  · intro h
    have hs := slug_of_text h
    refine ⟨(eq_of_text ?_ (by cases c <;> rfl)).symm, slug_eq_iff.1 hs⟩
    rw [key_withModel hs, h]
  · rintro ⟨he, hm⟩
    rw [he, key_withModel (slug_eq_iff.2 hm)]

theorem KeyCall.key_eq_iff {c c' : KeyCall} : c.key = c'.key ↔ c.key.text = c'.key.text := by
  refine ⟨congrArg _, fun h => ?_⟩
  obtain ⟨he, hm⟩ := text_eq_iff.1 h
  rw [he, key_withModel (slug_eq_iff.2 hm)]

/-- Two calls of the key functions share a key only if they are the same call, unless they are the
same but for two models that differ by `/` against `__`. -/
theorem keys_apart_iff (c c' : KeyCall) : (c.key.text = c'.key.text → c = c') ↔
    (c' = c.withModel c'.model → Interchangeable c.model c'.model → c.model = c'.model) := by
  rw [KeyCall.text_eq_iff]
  constructor
  · intro h he hm
    rw [h ⟨he, hm⟩]
  · rintro h ⟨he, hm⟩
    rw [he, ← h he hm]
    cases c <;> rfl

/-- A benchmark of `a__b` is taken for one of `a/b`. -/
theorem keys_collide : ¬ ∀ c c' : KeyCall, c.key.text = c'.key.text → c = c' := by
  intro h
  have hslug : slug "a/b" = slug "a__b" := String.toList_injective (by decide)
  have hcall := h (.latestMeta "a/b" .vllm) (.latestMeta "a__b" .vllm)
    (congrArg (fun s => (S3Key.latestMeta s .vllm).text) hslug)
  exact absurd hcall (by decide)

end GrillPlatform
