import GrillPlatform.Seq.StableSort
import GrillPlatform.Submission
import Mathlib.Data.String.Basic

/-! The scenario files: which documents the catalog and a submit get past, and what is published of
the well-formed ones. -/

namespace GrillPlatform
open Coroutine BenchService

namespace Yaml

def fields : Yaml → List (Yaml × Yaml)
  | .map fields => fields
  | _ => []

def items : Yaml → List Yaml
  | .seq xs => xs
  | _ => []

/-- The value under a key, null where there is none. -/
def value (v : Yaml) (k : String) : Yaml := (field v.fields k).getD .null

def Has (fields : List (Yaml × Yaml)) (k : String) (P : Yaml → Prop) : Prop :=
  ∀ v, field fields k = some v → P v

end Yaml

open Yaml

/-- A document of the shape that scenarios are written in. -/
structure Expected (fields : List (Yaml × Yaml)) : Prop where
  description : Has fields "description" fun v => v = .null ∨ ∃ s, v = .str s
  load : Has fields "load" fun v => v = .null ∨ ∃ load, v = .map load
  models : Has fields "models" fun v => v = .null ∨ ∃ models, v = .seq models
  conversations : Has fields "conversations" fun v => v = .null ∨ ∃ conversations,
    v = .seq conversations ∧ ∀ conv ∈ conversations, ∃ cf, conv = .map cf ∧
      Has cf "turns" fun v => ∃ turns, v = .seq turns ∧ ∀ turn ∈ turns, ∃ tf, turn = .map tf

def isUser (turn : Yaml) : Bool := (turn.value "role").isKey "user"

def turnsOf (conv : Yaml) : List Yaml := (conv.value "turns").items

/-- What a document of that shape says. -/
def summaryOf (path : String) (doc : Yaml) : ScenarioSummary where
  path
  name := (field doc.fields "name").getD (.str (pathStem path))
  description := match doc.value "description" with
    | .str s => .str (strip s)
    | _ => .str ""
  concurrencyLevels := (field (doc.value "load").fields "ramp_levels").getD (.seq [])
  iterations := (doc.value "load").value "iterations"
  maxTokens :=
    ((doc.value "models").items.findSome? fun m => field m.fields "max_tokens").getD .null
  prompt := (((doc.value "conversations").items.flatMap turnsOf).find? isUser).elim .null
    fun turn => turn.value "content"

theorem userTurn_maps {turns : List Yaml} (h : ∀ turn ∈ turns, ∃ tf, turn = .map tf) :
    userTurn turns = .ok ((turns.find? isUser).map fun turn => turn.value "content") := by
  induction turns with
  | nil => rfl
  | cons turn turns ih =>
    obtain ⟨tf, rfl⟩ := h turn List.mem_cons_self
    have hrest := ih fun t ht => h t (List.mem_cons_of_mem _ ht)
    have hcons : userTurn (.map tf :: turns) = if isUser (.map tf)
        then .ok (some ((Yaml.map tf).value "content")) else userTurn turns := rfl
    rw [hcons, hrest]
    cases hu : isUser (.map tf) with
    | true => rw [if_pos rfl, List.find?_cons_of_pos hu, Option.map_some]
    | false => rw [if_neg Bool.false_ne_true, List.find?_cons_of_neg (by simp [hu])]

theorem turns_elements {cf : List (Yaml × Yaml)}
    (h : Has cf "turns" fun v => ∃ turns, v = .seq turns ∧
      ∀ turn ∈ turns, ∃ tf, turn = .map tf) :
    ((field cf "turns").getD (.seq [])).elements = .ok (turnsOf (.map cf)) ∧
      ∀ turn ∈ turnsOf (.map cf), ∃ tf, turn = .map tf := by
  unfold turnsOf Yaml.value Yaml.fields
  cases hf : field cf "turns" with
  | none => exact ⟨rfl, fun _ ht => absurd ht List.not_mem_nil⟩
  | some v =>
    obtain ⟨turns, rfl, hturns⟩ := h v hf
    exact ⟨rfl, hturns⟩

theorem firstUserTurn_cons (conv : Yaml) (convs : List Yaml) : firstUserTurn (conv :: convs) =
    ((conv.get "turns" (.seq [])).bind Yaml.elements).bind fun turns => (userTurn turns).bind fun
      | some content => .ok content
      | none => firstUserTurn convs := by
  cases conv <;> rfl

/-- The prompt is the first turn of the user in all conversations, one after the other. -/
theorem firstUserTurn_maps {convs : List Yaml} (h : ∀ conv ∈ convs, ∃ cf, conv = .map cf ∧
      Has cf "turns" fun v => ∃ turns, v = .seq turns ∧ ∀ turn ∈ turns, ∃ tf, turn = .map tf) :
    firstUserTurn convs = .ok (((convs.flatMap turnsOf).find? isUser).elim .null
      fun turn => turn.value "content") := by
  induction convs with
  | nil => rfl
  | cons conv convs ih =>
    obtain ⟨cf, rfl, hcf⟩ := h conv List.mem_cons_self
    obtain ⟨helements, hmaps⟩ := turns_elements hcf
    have hturns : ((Yaml.map cf).get "turns" (.seq [])).bind Yaml.elements =
        .ok (turnsOf (.map cf)) := helements
    rw [firstUserTurn_cons, hturns, Except.bind, userTurn_maps hmaps, List.flatMap_cons,
      List.find?_append]
    cases hu : (turnsOf (.map cf)).find? isUser with
    | none => exact ih fun c hc => h c (List.mem_cons_of_mem _ hc)
    | some turn => rfl

theorem value_cases {fields : List (Yaml × Yaml)} {k : String} {P : Yaml → Prop}
    (h : Has fields k fun v => v = .null ∨ P v) :
    (Yaml.map fields).value k = .null ∨ P ((Yaml.map fields).value k) := by
  unfold Yaml.value Yaml.fields
  cases hf : field fields k with
  | none => exact .inl rfl
  | some v => exact h v hf

theorem stripped_description {fields : List (Yaml × Yaml)} (h : Expected fields) (path : String) :
    (((Yaml.map fields).value "description").orElse (.str "")).stripped =
      .ok (summaryOf path (.map fields)).description := by
  unfold summaryOf
  rcases value_cases h.description with hv | ⟨s, hv⟩
  · rw [hv]
    rfl
  · rw [hv]
    by_cases hs : s = ""
    · rw [hs]
      rfl
    · exact congrArg Yaml.stripped (if_pos (decide_eq_true hs))

theorem firstMaxTokens_seq (models : List Yaml) : firstMaxTokens (.seq models) =
    .ok ((models.findSome? fun m => field m.fields "max_tokens").getD .null) := by
  have hdeclared : (fun m => match m with
      | .map fields => field fields "max_tokens"
      | _ => none) = fun m : Yaml => field m.fields "max_tokens" := by
    funext m
    cases m <;> rfl
  exact congrArg (fun f => Except.ok ((models.findSome? f).getD .null)) hdeclared

theorem scenarioSummary_expected {fields : List (Yaml × Yaml)} (h : Expected fields)
    (path : String) :
    scenarioSummary path (.map fields) = .ok (summaryOf path (.map fields)) := by
  have hload : ((Yaml.map fields).value "load").orElse (.map []) =
      .map ((Yaml.map fields).value "load").fields := by
    rcases value_cases h.load with hv | ⟨load, hv⟩
    · rw [hv]
      rfl
    · rw [hv]
      cases load <;> rfl
  have hmodels : ((Yaml.map fields).value "models").orElse (.seq []) =
      .seq ((Yaml.map fields).value "models").items := by
    rcases value_cases h.models with hv | ⟨models, hv⟩
    · rw [hv]
      rfl
    · rw [hv]
      cases models <;> rfl
  have hconversations :
      firstUserPrompt (((Yaml.map fields).value "conversations").orElse (.seq [])) =
      .ok (summaryOf path (.map fields)).prompt := by
    unfold summaryOf
    rcases value_cases h.conversations with hv | ⟨convs, hv, hmaps⟩
    · rw [hv]
      rfl
    · have hiter : firstUserPrompt ((Yaml.seq convs).orElse (.seq [])) = firstUserTurn convs := by
        cases convs <;> rfl
      rw [hv, hiter]
      exact firstUserTurn_maps hmaps
  have hdescription := stripped_description h path
  have hdeclared := firstMaxTokens_seq ((Yaml.map fields).value "models").items
  simp only [Yaml.value, Yaml.fields] at hload hmodels hconversations hdescription hdeclared
  unfold scenarioSummary
  simp only [Yaml.get, hload, hmodels, hconversations, hdescription, hdeclared, bind,
    Except.bind, pure,
    Except.pure]
  rfl

/-- The elements up to the first that satisfies `stop`, and that one, satisfy `good`. -/
def UpTo {α : Type} (stop good : α → Prop) : List α → Prop
  | [] => True
  | a :: as => good a ∧ (¬ stop a → UpTo stop good as)

theorem upTo_cons {α : Type} {stop good : α → Prop} {a : α} {as : List α} :
    UpTo stop good (a :: as) ↔ good a ∧ (¬ stop a → UpTo stop good as) := Iff.rfl

/-- The computation returns something that satisfies `P`. -/
def Gives {α : Type} (e : Except Exc α) (P : α → Prop) : Prop := ∃ a, e = .ok a ∧ P a

section
variable {α β : Type} {P : α → Prop}

@[simp] theorem gives_ok {a : α} : Gives (.ok a) P ↔ P a :=
  ⟨fun ⟨_, h, hP⟩ => Except.ok.inj h ▸ hP, fun h => ⟨a, rfl, h⟩⟩

@[simp] theorem gives_error {x : Exc} : ¬ Gives (.error x) P := fun ⟨_, h, _⟩ => nomatch h

theorem gives_bind {e : Except Exc β} {f : β → Except Exc α} :
    Gives (e >>= f) P ↔ Gives e fun b => Gives (f b) P := by
  cases e with
  | error x => exact iff_of_false gives_error gives_error
  | ok b => exact (gives_ok (P := fun b => Gives (f b) P)).symm

theorem bind_eq_ok {e : Except Exc β} {f : β → Except Exc α} {a : α} :
    (e >>= f) = .ok a ↔ Gives e fun b => f b = .ok a := by
  cases e with
  | error x => exact iff_of_false (fun h => nomatch h) gives_error
  | ok b => exact (gives_ok (P := fun b => f b = .ok a)).symm

theorem gives_and_left {e : Except Exc α} {q : Prop} :
    Gives e (fun a => q ∧ P a) ↔ q ∧ Gives e P :=
  ⟨fun ⟨a, h, hq, hP⟩ => ⟨hq, a, h, hP⟩, fun ⟨hq, a, h, hP⟩ => ⟨a, h, hq, hP⟩⟩

theorem gives_and_right {e : Except Exc α} {q : Prop} :
    Gives e (fun a => P a ∧ q) ↔ Gives e P ∧ q :=
  ⟨fun ⟨a, h, hP, hq⟩ => ⟨⟨a, h, hP⟩, hq⟩, fun ⟨⟨a, h, hP⟩, hq⟩ => ⟨a, h, hP, hq⟩⟩

end

def Yaml.HasJson (v : Yaml) : Prop := v.dumps = true

def Declares (model : Yaml) : Prop := ∃ v, field model.fields "max_tokens" = some v

/-- The turns of a conversation, where it can be asked for them. -/
def Turns (conv : Yaml) (turns : List Yaml) : Prop :=
  ∃ cf, conv = .map cf ∧ ((field cf "turns").getD (.seq [])).elements = .ok turns

def HasUser (conv : Yaml) : Prop := ∃ turns, Turns conv turns ∧ ∃ turn ∈ turns, isUser turn = true

/-- A turn that can be asked for its role, and whose content JSON has if it is the user's. -/
def TurnFine (turn : Yaml) : Prop :=
  ∃ tf, turn = .map tf ∧ (isUser turn = true → Has tf "content" HasJson)

def ConvFine (conv : Yaml) : Prop :=
  ∃ turns, Turns conv turns ∧ UpTo (fun turn => isUser turn = true) TurnFine turns

/-- A mapping that neither the summary nor its JSON stops at. -/
structure Publishable (doc : Yaml) : Prop where
  name : Has doc.fields "name" HasJson
  description : (doc.value "description").truthy = false ∨ ∃ s, doc.value "description" = .str s
  load : (doc.value "load").truthy = false ∨ ∃ load, doc.value "load" = .map load ∧
    Has load "ramp_levels" HasJson ∧ Has load "iterations" HasJson
  models : (doc.value "models").truthy = false ∨ ∃ models,
    (doc.value "models").elements = .ok models ∧
      UpTo Declares (fun m => Has m.fields "max_tokens" HasJson) models
  conversations : (doc.value "conversations").truthy = false ∨ ∃ conversations,
    (doc.value "conversations").elements = .ok conversations ∧ UpTo HasUser ConvFine conversations

theorem has_iff {fields : List (Yaml × Yaml)} {k : String} {P : Yaml → Prop} {d : Yaml} (hd : P d) :
    Has fields k P ↔ P ((field fields k).getD d) := by
  unfold Has
  cases field fields k with
  | none => exact iff_of_true (fun _ h => nomatch h) hd
  | some v => exact ⟨fun h => h v rfl, fun h _ hv => Option.some.inj hv ▸ h⟩

theorem orElse_iff {P : Yaml → Prop} {v d : Yaml} (hd : P d) :
    P (v.orElse d) ↔ v.truthy = false ∨ P v := by
  unfold Yaml.orElse
  cases hv : v.truthy with
  | false => exact iff_of_true hd (.inl rfl)
  | true => exact ⟨.inr, fun h => h.resolve_left Bool.noConfusion⟩

theorem stripped_gives {v : Yaml} : Gives (v.orElse (.str "")).stripped HasJson ↔
    v.truthy = false ∨ ∃ s, v = .str s := by
  have hdefault : Gives (Yaml.str "").stripped HasJson := gives_ok.2 rfl
  refine (orElse_iff (P := fun v => Gives v.stripped HasJson) hdefault).trans (or_congr_right ?_)
  cases v with
  | str s => exact iff_of_true (gives_ok.2 rfl) ⟨s, rfl⟩
  | binary bytes => exact iff_of_false (fun h => nomatch gives_ok.1 h) fun ⟨_, h⟩ => nomatch h
  | null | bool | int | float | timestamp | seq | set | map =>
    exact iff_of_false gives_error fun ⟨_, h⟩ => nomatch h

theorem load_gives {v d : Yaml} {k : String} (hd : d.HasJson) :
    Gives ((v.orElse (.map [])).get k d) HasJson ↔
      v.truthy = false ∨ ∃ load, v = .map load ∧ Has load k HasJson := by
  have hdefault : Gives ((Yaml.map []).get k d) HasJson := gives_ok.2 hd
  refine (orElse_iff (P := fun v => Gives (v.get k d) HasJson) hdefault).trans (or_congr_right ?_)
  cases v with
  | map load =>
    refine gives_ok.trans ((has_iff hd).symm.trans ⟨fun h => ⟨load, rfl, h⟩, ?_⟩)
    rintro ⟨load', h, hload⟩
    cases h
    exact hload
  | null | bool | int | float | str | binary | timestamp | seq | set =>
    exact iff_of_false gives_error fun ⟨_, h, _⟩ => nomatch h

theorem maxTokens_hasJson {models : List Yaml} :
    ((models.findSome? fun m => field m.fields "max_tokens").getD .null).HasJson ↔
      UpTo Declares (fun m => Has m.fields "max_tokens" HasJson) models := by
  induction models with
  | nil => exact iff_of_true rfl trivial
  | cons m models ih =>
    rw [upTo_cons]
    unfold Declares Has
    cases hm : field m.fields "max_tokens" with
    | none =>
      rw [List.findSome?_cons, hm]
      apply ih.trans
      exact ⟨fun h => ⟨fun _ hv => (nomatch hv), fun _ => h⟩, fun h =>
        h.2 fun ⟨_, hv⟩ => nomatch hv⟩
    | some v =>
      rw [List.findSome?_cons, hm]
      exact ⟨fun h => ⟨fun _ hv => Option.some.inj hv ▸ h, fun hd => absurd ⟨v, rfl⟩ hd⟩,
        fun h => h.1 v rfl⟩

theorem userTurn_map (tf : List (Yaml × Yaml)) (turns : List Yaml) :
    userTurn (.map tf :: turns) = if isUser (.map tf) = true
      then .ok (some ((Yaml.map tf).value "content")) else userTurn turns := rfl

theorem userTurn_isSome {turns : List Yaml} {content : Option Yaml}
    (h : userTurn turns = .ok content) :
    content.isSome = true ↔ ∃ turn ∈ turns, isUser turn = true := by
  induction turns with
  | nil =>
    cases h
    exact iff_of_false Bool.noConfusion fun ⟨_, ht, _⟩ => absurd ht List.not_mem_nil
  | cons turn turns ih =>
    cases turn with
    | map tf =>
      rw [userTurn_map] at h
      rw [List.exists_mem_cons_iff]
      split at h
      · rename_i hu
        cases h
        exact iff_of_true rfl (.inl hu)
      · rename_i hu
        exact (ih h).trans ⟨.inr, fun h => h.resolve_left hu⟩
    | null | bool | int | float | str | binary | timestamp | seq | set => cases h

theorem userTurn_gives {turns : List Yaml} :
    Gives (userTurn turns) (fun content => ∀ c, content = some c → c.HasJson) ↔
      UpTo (fun turn => isUser turn = true) TurnFine turns := by
  induction turns with
  | nil => exact iff_of_true (gives_ok.2 fun _ h => nomatch h) trivial
  | cons turn turns ih =>
    rw [upTo_cons]
    cases turn with
    | map tf =>
      have hfine : TurnFine (.map tf) ↔ (isUser (.map tf) = true → Has tf "content" HasJson) :=
        ⟨fun ⟨_, h, hu⟩ => Yaml.map.inj h ▸ hu, fun hu => ⟨tf, rfl, hu⟩⟩
      have hcontent : Has tf "content" HasJson ↔ ((Yaml.map tf).value "content").HasJson :=
        has_iff (P := HasJson) (show Yaml.null.HasJson from rfl)
      rw [userTurn_map, hfine, hcontent]
      by_cases hu : isUser (.map tf) = true
      · rw [if_pos hu, gives_ok]
        exact ⟨fun h => ⟨fun _ => h _ rfl, fun hn => absurd hu hn⟩,
          fun h c hc => Option.some.inj hc ▸ h.1 hu⟩
      · rw [if_neg hu, ih]
        exact ⟨fun h => ⟨fun hu' => absurd hu' hu, fun _ => h⟩, fun h => h.2 hu⟩
    | null | bool | int | float | str | binary | timestamp | seq | set =>
      exact iff_of_false gives_error fun ⟨⟨_, h, _⟩, _⟩ => nomatch h

theorem turns_iff {conv : Yaml} {turns : List Yaml} :
    (conv.get "turns" (.seq [])).bind Yaml.elements = .ok turns ↔ Turns conv turns := by
  unfold Turns
  cases conv with
  | map cf => exact ⟨fun h => ⟨cf, rfl, h⟩, fun ⟨_, h, he⟩ => Yaml.map.inj h ▸ he⟩
  | null | bool | int | float | str | binary | timestamp | seq | set =>
    exact iff_of_false (fun h => nomatch h) fun ⟨_, h, _⟩ => nomatch h

theorem firstUserTurn_gives {convs : List Yaml} :
    Gives (firstUserTurn convs) HasJson ↔ UpTo HasUser ConvFine convs := by
  induction convs with
  | nil => exact iff_of_true (gives_ok.2 rfl) trivial
  | cons conv convs ih =>
    rw [firstUserTurn_cons, upTo_cons]
    cases hturns : (conv.get "turns" (.seq [])).bind Yaml.elements with
    | error x =>
      refine iff_of_false (gives_error (x := x)) fun ⟨⟨turns, ht, _⟩, _⟩ => ?_
      cases hturns.symm.trans (turns_iff.2 ht)
    | ok turns =>
      have hsame : ∀ turns', Turns conv turns' → turns' = turns := fun turns' ht =>
        Except.ok.inj ((turns_iff.2 ht).symm.trans hturns)
      have hfine : ConvFine conv ↔ UpTo (fun turn => isUser turn = true) TurnFine turns :=
        ⟨fun ⟨_, ht, h⟩ => hsame _ ht ▸ h, fun h => ⟨turns, turns_iff.1 hturns, h⟩⟩
      have hasUser : HasUser conv ↔ ∃ turn ∈ turns, isUser turn = true :=
        ⟨fun ⟨_, ht, h⟩ => hsame _ ht ▸ h, fun h => ⟨turns, turns_iff.1 hturns, h⟩⟩
      rw [hfine, hasUser, ← userTurn_gives, ← ih]
      dsimp only [Except.bind]
      cases hu : userTurn turns with
      | error x => exact iff_of_false gives_error fun h => gives_error h.1
      | ok content =>
        rw [← userTurn_isSome hu, gives_ok]
        cases content with
        | none =>
          exact ⟨fun h => ⟨fun _ hc => (nomatch hc), fun _ => h⟩, fun h => h.2 Bool.noConfusion⟩
        | some c =>
          exact ⟨fun h => ⟨fun _ hc => Option.some.inj hc ▸ gives_ok.1 h, fun hn => absurd rfl hn⟩,
            fun h => gives_ok.2 (h.1 c rfl)⟩

theorem models_gives {v : Yaml} : Gives (firstMaxTokens (v.orElse (.seq []))) HasJson ↔
    v.truthy = false ∨ ∃ models, v.elements = .ok models ∧
      UpTo Declares (fun m => Has m.fields "max_tokens" HasJson) models := by
  have hdefault : Gives (firstMaxTokens (.seq [])) HasJson := gives_ok.2 rfl
  refine (orElse_iff (P := fun v => Gives (firstMaxTokens v) HasJson) hdefault).trans
    (or_congr_right ?_)
  refine gives_bind.trans (exists_congr fun models => and_congr_right fun _ => ?_)
  exact (Iff.of_eq (congrArg (Gives · HasJson) (firstMaxTokens_seq models))).trans
    (gives_ok.trans maxTokens_hasJson)

theorem conversations_gives {v : Yaml} : Gives (firstUserPrompt (v.orElse (.seq []))) HasJson ↔
    v.truthy = false ∨ ∃ convs, v.elements = .ok convs ∧ UpTo HasUser ConvFine convs := by
  have hdefault : Gives (firstUserPrompt (.seq [])) HasJson := gives_ok.2 rfl
  refine (orElse_iff (P := fun v => Gives (firstUserPrompt v) HasJson) hdefault).trans
    (or_congr_right ?_)
  exact gives_bind.trans (exists_congr fun convs => and_congr_right fun _ => firstUserTurn_gives)

theorem scenarioSummary_split {fields : List (Yaml × Yaml)} {path : String} :
    let doc := Yaml.map fields
    Gives (scenarioSummary path doc) (fun s => s.dumps = true) ↔
      ((field fields "name").getD (.str (pathStem path))).HasJson ∧
      Gives ((doc.value "description").orElse (.str "")).stripped HasJson ∧
      Gives (((doc.value "load").orElse (.map [])).get "ramp_levels" (.seq [])) HasJson ∧
      Gives (((doc.value "load").orElse (.map [])).get "iterations" .null) HasJson ∧
      Gives (firstMaxTokens ((doc.value "models").orElse (.seq []))) HasJson ∧
      Gives (firstUserPrompt ((doc.value "conversations").orElse (.seq []))) HasJson := by
  unfold scenarioSummary
  have hget : ∀ k d, (Yaml.map fields).get k d = .ok ((field fields k).getD d) := fun _ _ => rfl
  simp only [gives_bind, pure, Except.pure, gives_ok, ScenarioSummary.dumps, Bool.and_eq_true,
    gives_and_left, gives_and_right, hget, and_assoc]
  exact Iff.rfl

theorem scenarioSummary_gives {fields : List (Yaml × Yaml)} (path : String) :
    Gives (scenarioSummary path (.map fields)) (fun s => s.dumps = true) ↔
    Publishable (.map fields) := by
  have hname : Has fields "name" HasJson ↔
      ((field fields "name").getD (.str (pathStem path))).HasJson := has_iff (P := HasJson) rfl
  apply scenarioSummary_split.trans
  rw [← hname, stripped_gives, load_gives (d := .seq []) rfl, load_gives (d := .null) rfl,
    models_gives, conversations_gives]
  constructor
  · rintro ⟨hname, hdescription, hlevels, hiterations, hmodels, hconversations⟩
    refine ⟨hname, hdescription, ?_, hmodels, hconversations⟩
    rcases hlevels with h | ⟨load, hl, hlevels⟩
    · exact .inl h
    · rcases hiterations with h | ⟨load', hl', hiterations⟩
      · exact .inl h
      · cases hl.symm.trans hl'
        exact .inr ⟨load, hl, hlevels, hiterations⟩
  · rintro ⟨hname, hdescription, hload, hmodels, hconversations⟩
    exact ⟨hname, hdescription, hload.imp_right fun ⟨load, hl, h, _⟩ => ⟨load, hl, h⟩,
      hload.imp_right fun ⟨load, hl, _, h⟩ => ⟨load, hl, h⟩, hmodels, hconversations⟩

/-- A file that publication does not stop at: it is YAML, and a mapping in it is publishable. -/
def ScenarioFile.Publishable (file : ScenarioFile) : Prop :=
  ∃ doc, file.2 = .ok doc ∧ ((∃ fields, doc = .map fields) → GrillPlatform.Publishable doc)

def byName (files : List ScenarioFile) : List ScenarioFile := Seq.sortBy Prod.fst files

theorem buildScenariosCatalog_eq (files : List ScenarioFile) :
    buildScenariosCatalog (some files) = summarizeScenarios (byName files) := rfl

theorem summarizeScenarios_map (name : String) (fields : List (Yaml × Yaml))
    (files : List ScenarioFile) : summarizeScenarios ((name, .ok (.map fields)) :: files) =
      scenarioSummary s!"scenarios/{name}" (.map fields) >>= fun s =>
        summarizeScenarios files >>= fun others => .ok (s :: others) := rfl

theorem summarizeScenarios_skip {name : String} {doc : Yaml} {files : List ScenarioFile}
    (h : ∀ fields, doc ≠ .map fields) :
    summarizeScenarios ((name, .ok doc) :: files) = summarizeScenarios files := by
  cases doc with
  | map fields => exact absurd rfl (h fields)
  | null | bool | int | float | str | binary | timestamp | seq | set => rfl

theorem summarizeScenarios_cons {file : ScenarioFile} {files : List ScenarioFile}
    {entries : List ScenarioSummary} (h : summarizeScenarios (file :: files) = .ok entries) :
    (∃ doc, file.2 = .ok doc ∧ (∀ fields, doc ≠ .map fields) ∧
      summarizeScenarios files = .ok entries) ∨
    ∃ fields s others, file.2 = .ok (.map fields) ∧
      scenarioSummary s!"scenarios/{file.1}" (.map fields) = .ok s ∧
      summarizeScenarios files = .ok others ∧ entries = s :: others := by
  obtain ⟨name, content⟩ := file
  cases content with
  | error x => cases h
  | ok doc =>
    by_cases hmap : ∃ fields, doc = .map fields
    · obtain ⟨fields, rfl⟩ := hmap
      rw [summarizeScenarios_map] at h
      obtain ⟨s, hs, h⟩ := bind_eq_ok.1 h
      obtain ⟨others, hothers, h⟩ := bind_eq_ok.1 h
      exact .inr ⟨fields, s, others, rfl, hs, hothers, (Except.ok.inj h).symm⟩
    · have hskip : ∀ fields, doc ≠ .map fields := fun fields hf => hmap ⟨fields, hf⟩
      rw [summarizeScenarios_skip hskip] at h
      exact .inl ⟨doc, rfl, hskip, h⟩

theorem scenarioSummary_path {path : String} {doc : Yaml} {s : ScenarioSummary}
    (h : scenarioSummary path doc = .ok s) : s.path = path := by
  unfold scenarioSummary at h
  simp only [bind_eq_ok] at h
  obtain ⟨_, _, _, _, _, _, _, _, _, _, _, _, _, _, _, _, _, _, _, _, h⟩ := h
  cases h
  rfl

theorem summarizeScenarios_gives {files : List ScenarioFile} :
    Gives (summarizeScenarios files) (fun entries => entries.all ScenarioSummary.dumps = true) ↔
      ∀ file ∈ files, file.Publishable := by
  induction files with
  | nil => exact iff_of_true (gives_ok.2 rfl) fun _ h => absurd h List.not_mem_nil
  | cons file files ih =>
    rw [List.forall_mem_cons, ← ih]
    obtain ⟨name, content⟩ := file
    cases content with
    | error x => exact iff_of_false (gives_error (x := x)) fun ⟨⟨_, h, _⟩, _⟩ => nomatch h
    | ok doc =>
      by_cases hmap : ∃ fields, doc = .map fields
      · obtain ⟨fields, rfl⟩ := hmap
        have hfile :
            ScenarioFile.Publishable (name, .ok (.map fields)) ↔ Publishable (.map fields) :=
          ⟨fun ⟨_, h, hd⟩ => Except.ok.inj h ▸ hd ⟨fields, (Except.ok.inj h).symm⟩,
            fun h => ⟨_, rfl, fun _ => h⟩⟩
        rw [hfile, ← scenarioSummary_gives s!"scenarios/{name}", summarizeScenarios_map]
        simp only [gives_bind, gives_ok, List.all_cons, Bool.and_eq_true, gives_and_left,
          gives_and_right]
      · have hskip : ∀ fields, doc ≠ .map fields := fun fields hf => hmap ⟨fields, hf⟩
        rw [summarizeScenarios_skip hskip]
        exact ⟨fun h => ⟨⟨doc, rfl, fun hd => absurd hd hmap⟩, h⟩, And.right⟩

section
variable {files : List ScenarioFile} {entries : List ScenarioSummary}

theorem summarizeScenarios_names (h : summarizeScenarios files = .ok entries) :
    ∃ names, List.Sublist names (files.map Prod.fst) ∧
      entries.map (·.path) = names.map fun name => s!"scenarios/{name}" := by
  induction files generalizing entries with
  | nil =>
    cases h
    exact ⟨[], List.nil_sublist _, rfl⟩
  | cons file files ih =>
    rcases summarizeScenarios_cons h with
      ⟨doc, -, -, hothers⟩ | ⟨fields, s, others, -, hs, hothers, rfl⟩
    · obtain ⟨names, hnames, hpaths⟩ := ih hothers
      exact ⟨names, hnames.cons _, hpaths⟩
    · obtain ⟨names, hnames, hpaths⟩ := ih hothers
      refine ⟨file.1 :: names, hnames.cons_cons _, ?_⟩
      rw [List.map_cons, List.map_cons, hpaths, scenarioSummary_path hs]

theorem summarizeScenarios_expected (h : summarizeScenarios files = .ok entries) {name : String}
    {fields : List (Yaml × Yaml)} (hfile : (name, .ok (.map fields)) ∈ files)
    (he : Expected fields) :
    summaryOf s!"scenarios/{name}" (.map fields) ∈ entries := by
  induction files generalizing entries with
  | nil => exact absurd hfile List.not_mem_nil
  | cons file files ih =>
    rcases summarizeScenarios_cons h with
      ⟨doc, hdoc, hskip, hothers⟩ | ⟨fields', s, others, hdoc, hs, hothers, rfl⟩
    · rcases List.mem_cons.1 hfile with rfl | hfile
      · exact absurd (Except.ok.inj hdoc).symm (hskip fields)
      · exact ih hothers hfile
    · rcases List.mem_cons.1 hfile with rfl | hfile
      · cases hdoc
        rw [scenarioSummary_expected he] at hs
        cases hs
        exact List.mem_cons_self
      · exact List.mem_cons_of_mem _ (ih hothers hfile)

theorem summarizeScenarios_without (h : summarizeScenarios files = .ok entries) (name : String) :
    summarizeScenarios (files.filter fun file => file.1 ≠ name) =
      .ok (entries.filter fun s => s.path ≠ s!"scenarios/{name}") := by
  induction files generalizing entries with
  | nil =>
    cases h
    rfl
  | cons file files ih =>
    rcases summarizeScenarios_cons h with
      ⟨doc, hdoc, hskip, hothers⟩ | ⟨fields, s, others, hdoc, hs, hothers, rfl⟩
    · rw [List.filter_cons]
      split
      · obtain ⟨n, content⟩ := file
        cases hdoc
        exact (summarizeScenarios_skip hskip).trans (ih hothers)
      · exact ih hothers
    · have hpath : s.path = s!"scenarios/{name}" ↔ file.1 = name := by
        rw [scenarioSummary_path hs]
        exact String.append_right_inj _
      rw [List.filter_cons, List.filter_cons]
      simp only [ne_eq, hpath]
      split
      · obtain ⟨n, content⟩ := file
        cases hdoc
        rw [summarizeScenarios_map, hs, ih hothers]
        rfl
      · exact ih hothers

end

/-- The worlds have the same objects, and may differ in what these contain. -/
def SameKeys (w v : World) : Prop :=
  ∃ objects : S3, v = { w with s3 := objects } ∧ ∀ key, (objects key).isSome = (w.s3 key).isSome

theorem SameKeys.put {w v : World} (h : SameKeys w v) (cfg cfg' : Config) (e : Env) (key : S3Key)
    (body body' : S3Body) :
    (served cfg (.s3 (.putObject key body)) e w).1 =
      (served cfg' (.s3 (.putObject key body')) e v).1 ∧
    SameKeys (served cfg (.s3 (.putObject key body)) e w).2
      (served cfg' (.s3 (.putObject key body')) e v).2 := by
  obtain ⟨objects, rfl, hkeys⟩ := h
  have hput : ∀ k, (Function.update objects key (some body') k).isSome =
      (Function.update w.s3 key (some body) k).isSome := by
    intro k
    by_cases hk : k = key
    · rw [hk, Function.update_self, Function.update_self]
      rfl
    · rw [Function.update_of_ne hk, Function.update_of_ne hk, hkeys]
  simp only [served, World.call, S3Call.run, Env.guard]
  cases e.fault with
  | before => exact ⟨rfl, objects, rfl, hkeys⟩
  | none | after => exact ⟨rfl, _, rfl, hput⟩

/-- The image without scenario files. -/
def Config.bare (cfg : Config) : Config := { cfg with scenarioFiles := none }

theorem SameKeys.call {w v : World} (h : SameKeys w v) (cfg cfg' : Config) (e : Env) {op : Op}
    {force : Bool} {modelFilter : Option String} (hop : RequestOp (.submit force modelFilter) op) :
    (served cfg op e w).1 = (served cfg' op e v).1 ∧
      SameKeys (served cfg op e w).2 (served cfg' op e v).2 := by
  cases op with
  | s3 q =>
    cases q with
    | putObject key body => exact h.put cfg cfg' e key body body
    | headObject key =>
      obtain ⟨objects, rfl, hkeys⟩ := h
      simp only [served, World.call, S3Call.run, Env.guard, hkeys]
      cases e.fault <;> exact ⟨rfl, objects, rfl, hkeys⟩
    | copyObject | getObject => exact hop.elim
  | tf => exact hop.elim
  | _ =>
    obtain ⟨objects, rfl, hkeys⟩ := h
    exact ⟨rfl, objects, rfl, hkeys⟩

theorem publishCatalogs_alike {cfg : Config} {entries : List ScenarioSummary}
    (hdump : dumpScenarios cfg.scenarioFiles = .ok entries) (all : List ModelEntry) :
    (publishCatalogs cfg all).Alike (S := sig) (served cfg) (served cfg.bare) SameKeys
      (publishCatalogs cfg.bare all) := by
  let publish (scenarios : List ScenarioSummary) : Async Unit :=
    (s3 (.putObject .models (.models (buildModelsCatalog cfg.unicode all)))).bind fun _ =>
      (s3 (.putObject .scenarios (.scenarios scenarios))).bind fun _ =>
        s3 (.putObject .engines (.engines buildEnginesCatalog))
  have hcfg : publishCatalogs cfg all = publish entries := by
    unfold publishCatalogs
    rw [hdump]
    rfl
  have hbare : publishCatalogs cfg.bare all = publish [] := rfl
  have hput : ∀ key body body', (s3 (.putObject key body)).Alike (S := sig) (served cfg)
      (served cfg.bare) SameKeys (s3 (.putObject key body')) := by
    intro key body body' ω w v hw
    obtain ⟨ha, hr⟩ := hw.put cfg cfg.bare (ω 0) key body body'
    rw [exec_s3, exec_s3]
    exact ⟨ha, hr, rfl⟩
  rw [hcfg, hbare]
  exact Prog.alike_bind (hput _ _ _) fun _ => Prog.alike_bind (hput _ _ _) fun _ => hput _ _ _

theorem submit_alike {cfg : Config} {entries : List ScenarioSummary}
    (hdump : dumpScenarios cfg.scenarioFiles = .ok entries) (force : Bool)
    (modelFilter : Option String) : (submit cfg force modelFilter).Alike (S := sig) (served cfg)
      (served cfg.bare) SameKeys (submit cfg.bare force modelFilter) := by
  have hcalls : ∀ {α : Type} {p : Async α},
      p.Calls (S := sig) (RequestOp (.submit force modelFilter)) →
        p.Alike (S := sig) (served cfg) (served cfg.bare) SameKeys p := fun hp =>
    Prog.alike_of_calls (fun _ e _ _ hop hw => hw.call cfg _ e hop) hp
  refine Prog.alike_bind (hcalls (Prog.calls_ofExcept _)) fun all =>
    Prog.alike_bind (publishCatalogs_alike hdump all) fun _ => hcalls ?_
  cases modelFilter with
  | none => exact submitEntries_calls force none _ _ fun _ h _ => h
  | some needle =>
    dsimp only
    split
    · trivial
    · exact submitEntries_calls force _ _ _ fun _ h _ => h

/-! ## Publication -/

/-- A catalog as the files say it should be. -/
structure Catalogs (files : List ScenarioFile) (entries : List ScenarioSummary) : Prop where
  built : buildScenariosCatalog (some files) = .ok entries
  ordered : ∃ names : List String, names.Pairwise (· ≤ ·) ∧
    entries.map (·.path) = names.map fun name => s!"scenarios/{name}"
  complete : ∀ name fields, (name, .ok (.map fields)) ∈ files → Expected fields →
    summaryOf s!"scenarios/{name}" (.map fields) ∈ entries
  /-- Without one of the files the entries of the others are the same. -/
  undisturbed : ∀ name, buildScenariosCatalog (some (files.filter fun file => file.1 ≠ name)) =
    .ok (entries.filter fun s => s.path ≠ s!"scenarios/{name}")

/-- The catalog is built, and a submit ends as in an image without scenario files. -/
def NeverBlocked (files : List ScenarioFile) : Prop :=
  (∃ entries, Catalogs files entries) ∧
    ∀ cfg : Config, cfg.scenarioFiles = some files → ∀ force modelFilter ω w,
      ((submit cfg force modelFilter).exec (S := sig) (served cfg) ω w).1 =
        ((submit cfg.bare force modelFilter).exec (S := sig) (served cfg.bare) ω w).1

theorem catalogs_of_built {files : List ScenarioFile} {entries : List ScenarioSummary}
    (h : buildScenariosCatalog (some files) = .ok entries) : Catalogs files entries := by
  rw [buildScenariosCatalog_eq] at h
  obtain ⟨names, hnames, hpaths⟩ := summarizeScenarios_names h
  have hsorted : ((byName files).map Prod.fst).Pairwise (· ≤ ·) :=
    List.pairwise_map.2 (Seq.sortBy_pairwise files)
  refine ⟨h, ⟨names, hsorted.sublist hnames, hpaths⟩, fun name fields hfile => ?_, fun name => ?_⟩
  · exact summarizeScenarios_expected h ((Seq.sortBy_perm files).mem_iff.2 hfile)
  · rw [buildScenariosCatalog_eq, byName, Seq.sortBy_filter]
    exact summarizeScenarios_without h name

theorem dumpScenarios_ok {files : List ScenarioFile} :
    (∃ entries, dumpScenarios (some files) = .ok entries) ↔ ∀ file ∈ files, file.Publishable := by
  have hmem : (∀ file ∈ byName files, file.Publishable) ↔ ∀ file ∈ files, file.Publishable :=
    forall_congr' fun file => by rw [byName, (Seq.sortBy_perm files).mem_iff]
  rw [← hmem, ← summarizeScenarios_gives]
  unfold dumpScenarios
  rw [buildScenariosCatalog_eq]
  cases summarizeScenarios (byName files) with
  | error x => exact iff_of_false (fun ⟨_, h⟩ => nomatch h) gives_error
  | ok entries =>
    rw [gives_ok]
    change (∃ out, (if entries.all ScenarioSummary.dumps = true then _ else _) = Except.ok out) ↔ _
    split
    · rename_i hall
      exact iff_of_true ⟨entries, rfl⟩ hall
    · rename_i hall
      exact iff_of_false (fun ⟨_, h⟩ => nomatch h) hall

/-- The files never stop publication exactly when each of them is publishable. -/
theorem neverBlocked_iff (files : List ScenarioFile) :
    NeverBlocked files ↔ ∀ file ∈ files, file.Publishable := by
  rw [← dumpScenarios_ok]
  constructor
  · rintro ⟨-, hsubmit⟩
    -- a submit of no entries that meets no fault
    let cfg : Config := { Sample.config with scenarioFiles := some files }
    have hbare : ((submit cfg.bare false none).exec (S := sig) (served cfg.bare) (fun _ => {})
        Sample.world).1 = .ok {} := rfl
    have hreturns := (hsubmit cfg rfl false none (fun _ => {}) Sample.world).trans hbare
    cases hdump : dumpScenarios (some files) with
    | ok entries => exact ⟨entries, rfl⟩
    | error x =>
      have hfiles : dumpScenarios cfg.scenarioFiles = .error x := hdump
      unfold submit publishCatalogs at hreturns
      rw [hfiles] at hreturns
      cases hreturns
  · rintro ⟨entries, hdump⟩
    refine ⟨?_, fun cfg hcfg force modelFilter ω w => ?_⟩
    · cases hbuild : buildScenariosCatalog (some files) with
      | ok built => exact ⟨built, catalogs_of_built hbuild⟩
      | error x =>
        unfold dumpScenarios at hdump
        rw [hbuild] at hdump
        cases hdump
    · have hw : SameKeys w w := ⟨w.s3, rfl, fun _ => rfl⟩
      exact (submit_alike (hcfg ▸ hdump) force modelFilter ω w w hw).1

namespace Sample

/-- A good scenario beside one whose `load` is a list. -/
def brokenLoad : List ScenarioFile :=
  [("ramp.yaml", .ok (.map [(.str "name", .str "ramp")])),
    ("broken.yaml", .ok (.map [(.str "load", .seq [.int 1, .int 2])]))]

end Sample

/-- The list has no `get`. -/
theorem broken_blocks : ¬ ∀ files : List ScenarioFile, NeverBlocked files := by
  intro h
  obtain ⟨⟨entries, hentries⟩, -⟩ := h Sample.brokenLoad
  have hraise : buildScenariosCatalog (some Sample.brokenLoad) = .error attributeError := by rfl
  cases hraise.symm.trans hentries.built

end GrillPlatform
