import GrillPlatform.Coroutine.Cell
import GrillPlatform.Grounded
import GrillPlatform.Upserts

/-! The leaderboard as completions edit it, each reading the file and writing it back. Completions
that overlap may lose entries, but never garble the file; others never lose one. -/

namespace GrillPlatform
open Coroutine Seq
variable {cfg : Config}

def S3.entries (s3 : S3) : List Json :=
  match s3 .leaderboard with
  | some (.leaderboard entries) => entries
  | _ => []

namespace Op

def readsLeaderboard : Op → Bool
  | .s3 (.getObject .leaderboard) => true
  | _ => false

def leaderboardSeen : (op : Op) → op.Resp → Option (List Json)
  | .s3 (.getObject .leaderboard), .ok current => (leaderboardEntries current).toOption
  | _, _ => none

/-- The entries that are written; the last is that of the completed run. -/
def leaderboardWrites : Op → Option (List Json × Json)
  | .s3 (.putObject .leaderboard (.leaderboard entries)) =>
    entries.getLast?.map fun entry => (entries, entry)
  | _ => none

def leavesLeaderboard : Op → Bool
  | .s3 (.putObject .leaderboard _) | .s3 (.copyObject .leaderboard _) => false
  | _ => true

/-- A completed run that has not ended. -/
def unended : (op : Op) → op.Resp → Bool
  | .db (.completeRun ..), .ok done => done.1.endedAt.isNone
  | _, _ => false

end Op

theorem entries_of_seen {s3 : S3} {entries : List Json}
    (h : (leaderboardEntries (s3 .leaderboard)).toOption = some entries) :
    entries = s3.entries := by
  unfold S3.entries
  match hs : s3 .leaderboard with
  | none =>
    rw [hs] at h
    exact (Option.some.inj h).symm
  | some (.leaderboard es) =>
    rw [hs, leaderboardEntries] at h
    split at h <;> cases h
    rfl
  | some (.jsonl _) | some (.log _) | some (.completedRun _) | some (.models _)
  | some (.scenarios _) | some (.engines _) =>
    rw [hs] at h
    cases h

theorem S3Call.entries_run {q : S3Call} {e : Env} {s3 : S3}
    (h : Op.leavesLeaderboard (.s3 q) = true) : (q.run e s3).2.entries = s3.entries := by
  have hkey : (q.run e s3).2 .leaderboard = s3 .leaderboard := by
    rcases q.run_key e s3 .leaderboard with hk | ⟨body, rfl, -⟩ | ⟨source, rfl⟩
    · exact hk
    · cases h
    · cases h
  rw [S3.entries, S3.entries, hkey]

theorem S3Call.entries_put {entries : List Json} {e : Env} {s3 : S3} :
    ((S3Call.putObject .leaderboard (.leaderboard entries)).run e s3).2.entries =
      if e.fault ≠ .before then entries else s3.entries := by
  unfold S3Call.run Env.guard
  cases e.fault <;> simp [S3.entries]

theorem Query.ended_answer (q : Query) {e : Env} {now : Time} {db : Db} :
    Op.unended (.db q) (q.run e now db).1 = false := by
  cases q with
  | completeRun r url result =>
    match ha : ((Query.completeRun r url result).run e now db).1 with
    | .error x => rfl
    | .ok done =>
      obtain ⟨⟨run, -, hdone, -⟩, -⟩ := RunRepository.completeRun_ok (Query.run_ok ha)
      show done.1.endedAt.isNone = false
      rw [hdone]
      rfl
  | _ => rfl

/-- The leaderboard, which completions rewrite. -/
def leaderboardCell (cfg : Config) : Cell (orchestrator cfg) (List Json) Json where
  value w := w.s3.entries
  apply := upsert Json.pair
  reads := Op.readsLeaderboard
  seen := Op.leaderboardSeen
  writes := Op.leaderboardWrites
  lands e := e.fault ≠ .before
  leaves := Op.leavesLeaderboard
  never := Op.unended
  seen_reads op r v h := by
    unfold Op.leaderboardSeen at h
    split at h
    · rfl
    · cases h
  seen_value i n op e w v h := by
    unfold Op.leaderboardSeen at h
    split at h
    · rename_i current ha
      rw [getObject_ok ha] at h
      exact entries_of_seen h
    · cases h
  leaves_writes op h := by
    unfold Op.leaderboardWrites
    split
    · cases h
    · rfl
  value_write i n op e w v u h := by
    unfold Op.leaderboardWrites at h
    split at h
    · rename_i entries
      obtain ⟨entry, -, hv⟩ := Option.map_eq_some_iff.1 h
      cases hv
      simp only [decide_eq_true_iff]
      exact S3Call.entries_put
    · cases h
  value_kept i n op e w h := by
    cases op with
    | s3 q => exact q.entries_run h
    | _ => rfl
  value_reboot e w := rfl
  answered i n op e w := by
    cases op with
    | db q => exact q.ended_answer
    | _ => rfl

/-- No task reads the leaderboard while another is about to write it. -/
abbrev Apart : System cfg → Step cfg → Prop := (leaderboardCell cfg).Apart

/-- The entries that the steps of a schedule write, in their order. -/
def writtenEntries (p : System cfg) (ls : List (Step cfg)) : List Json :=
  (leaderboardCell cfg).edits p ls

/-! ## Every task edits as it should -/

abbrev editing (cfg : Config) : Protocol sig (Editing (List Json)) := (leaderboardCell cfg).editing

def Elsewhere : Op → Prop
  | .db (.completeRun ..) | .s3 (.getObject .leaderboard) | .s3 (.putObject .leaderboard _)
  | .s3 (.copyObject .leaderboard _) => False
  | _ => True

theorem elsewhere_editing {op : Op} (h : Elsewhere op) :
    (editing cfg).pre .idle op ∧ ∀ a, (editing cfg).post .idle op a = .idle := by
  constructor
  · show Op.leavesLeaderboard op = true
    unfold Op.leavesLeaderboard
    split <;> first | exact h.elim | rfl
  · intro a
    have hnever : Op.unended op a = false := by
      unfold Op.unended
      split <;> first | exact h.elim | rfl
    have hseen : Op.leaderboardSeen op a = none := by
      unfold Op.leaderboardSeen
      split <;> first | exact h.elim | rfl
    refine (Cell.post_idle hnever).trans ?_
    show (Op.leaderboardSeen op a).elim _ _ = _
    rw [hseen]
    rfl

theorem elsewhere_maintains {α : Type} {p : Async α} (hp : p.Calls (S := sig) Elsewhere) :
    p.Maintains (editing cfg) fun γ => γ = .idle := by
  refine hp.maintains fun γ op hγ hop => ?_
  subst hγ
  exact elsewhere_editing hop

/-- The task is in the middle of no edit. -/
def Unheld (γ : Editing (List Json)) (_ : Except Exc Unit) : Prop := γ = .idle ∨ γ = .stray

theorem unheld_stray {p : Async Unit} {γ : Editing (List Json)} (hγ : γ = .stray) :
    p.Follows (editing cfg) Unheld γ := by
  subst hγ
  induction p with
  | pure | raise => exact .inr rfl
  | call op next ih =>
    refine ⟨trivial, fun a => ?_⟩
    rw [show (editing cfg).post _ _ _ = _ from Cell.post_stray]
    exact ih a

theorem elsewhere_bind {α : Type} {p : Async α} {f : α → Async Unit}
    (hp : p.Calls (S := sig) Elsewhere) (hf : ∀ a, (f a).Follows (editing cfg) Unheld .idle) :
    (p.bind f).Follows (editing cfg) Unheld .idle :=
  (elsewhere_maintains hp).bind rfl (fun a _ hγ => hγ ▸ hf a) fun _ _ hγ => .inl hγ

theorem leaderboardWrites_upsert (entries : List Json) (entry : Json) :
    Op.leaderboardWrites (.s3 (.putObject .leaderboard (.leaderboard
      (upsert Json.pair entries entry)))) = some (upsert Json.pair entries entry, entry) := by
  simp [Op.leaderboardWrites, upsert]

theorem updateLeaderboardFor_editing {run : Run} {t : Time} (ht : run.endedAt = some t)
    (result : Result) (perConcurrency : List Json) :
    (updateLeaderboardFor run result perConcurrency).Follows (editing cfg) Unheld .idle := by
  refine ⟨rfl, fun current => ?_⟩
  have hpost : (editing cfg).post .idle (.s3 (.getObject .leaderboard)) current =
      (Op.leaderboardSeen (.s3 (.getObject .leaderboard)) current).elim .idle .holding :=
    Cell.post_idle (by cases current <;> rfl)
  rw [hpost]
  cases current with
  | error x => exact .inl rfl
  | ok current =>
    show ((Prog.ofExcept (leaderboardEntries current)).bind _).Follows _ _
      ((leaderboardEntries current).toOption.elim _ _)
    cases leaderboardEntries current with
    | error x => exact .inl rfl
    | ok entries =>
      show ((endedAtOrNow run).bind _).Follows _ _ (Editing.holding entries)
      rw [endedAtOrNow, ht]
      refine ⟨⟨leaderboardEntry run result perConcurrency t, ?_⟩, fun a => ?_⟩
      · rw [withoutPair_eq]
        exact leaderboardWrites_upsert entries (leaderboardEntry run result perConcurrency t)
      · exact (Prog.follows_ofExcept a).2 (.inl (Cell.post_holding rfl))

theorem publish_editing (cfg : Config) (run : Run) (jsonl : String) :
    (RunService.publish cfg run jsonl).Follows (editing cfg) Unheld .idle := by
  have hupload : (uploadResults run jsonl).Calls (S := sig) Elsewhere :=
    Prog.calls_bind (calls_s3 trivial) fun _ => Prog.calls_bind (calls_s3 trivial) fun _ => trivial
  refine elsewhere_bind hupload fun url => ?_
  refine follows_answer (fun result _ => ?_) fun _ _ => .inl rfl
  refine follows_answer (fun perConcurrency _ => ?_) fun _ _ => .inl rfl
  refine ⟨rfl, fun a => ?_⟩
  cases a with
  | error x => exact .inl rfl
  | ok done =>
    cases ht : done.1.endedAt with
    | none =>
      refine unheld_stray (Cell.post_never ?_ _)
      show done.1.endedAt.isNone = true
      rw [ht]
      rfl
    | some t =>
      have hpost : (editing cfg).post .idle (.db (.completeRun run.id url.text result))
          (.ok done) = .idle := by
        refine Cell.post_idle ?_
        show done.1.endedAt.isNone = false
        rw [ht]
        rfl
      rw [hpost]
      have hmeta : (uploadMeta done.1).Calls (S := sig) Elsewhere :=
        Prog.calls_bind (endedAtOrNow_calls trivial done.1) fun _ => calls_s3 trivial
      show ((uploadMeta done.1).bind _).Follows _ _ _
      exact elsewhere_bind hmeta fun _ => updateLeaderboardFor_editing ht result perConcurrency

theorem complete_editing (cfg : Config) (r : RunId) (jsonl : String) :
    (RunController.complete cfg r jsonl).Follows (editing cfg) Unheld .idle := by
  have hservice : (RunService.complete cfg r jsonl).Follows (editing cfg) Unheld .idle := by
    refine follows_query_bind rfl (fun found => ?_) fun _ => .inl rfl
    match found with
    | none => exact .inl rfl
    | some run =>
      dsimp only
      split
      · exact .inl rfl
      · exact publish_editing cfg run.1 jsonl
  refine Prog.follows_bind.2 (hservice.mono fun γ out hγ => ?_)
  cases out with
  | error x => exact hγ
  | ok _ =>
    rcases hγ with rfl | rfl
    · have hcreate : (createTask (.releaseNode r)).Calls (S := sig) Elsewhere := calls_emit trivial
      exact elsewhere_bind hcreate fun _ => .inl rfl
    · exact unheld_stray rfl

theorem attachLogs_elsewhere (r : RunId) (body : List UInt8) :
    (RunService.attachLogs r body).Calls (S := sig) Elsewhere := by
  refine calls_query_bind.2 ⟨trivial, fun found => ?_⟩
  cases found with
  | none => trivial
  | some run =>
    refine Prog.calls_bind (Prog.calls_bind (calls_s3 trivial) fun _ => trivial) fun key => ?_
    refine calls_query_bind.2 ⟨trivial, fun _ => calls_query_bind.2 ⟨trivial, fun found' => ?_⟩⟩
    split <;> trivial

theorem elsewhere_of_may {n : TaskName} {op : Op} (h : n.may cfg op)
    (hn : ∀ r jsonl, n ≠ .request (.complete r jsonl))
    (hl : ∀ r body, n ≠ .request (.attachLogs r body)) : Elsewhere op := by
  cases op with
  | db q =>
    cases q with
    | completeRun =>
      cases n with
      | request req =>
        cases req with
        | complete r jsonl => exact absurd rfl (hn r jsonl)
        | _ => exact h.elim
      | _ => exact h.elim
    | _ => trivial
  | s3 q =>
    cases n with
    | request req =>
      cases req with
      | complete r jsonl => exact absurd rfl (hn r jsonl)
      | attachLogs r body => exact absurd rfl (hl r body)
      | submit force modelFilter =>
        cases q with
        | putObject key content => cases key <;> cases content <;> first | exact h.elim | trivial
        | headObject => trivial
        | _ => exact h.elim
      | _ => exact h.elim
    | _ => exact h.elim
  | _ => trivial

theorem body_editing (cfg : Config) (n : TaskName) :
    (n.body cfg).Follows (editing cfg) (fun _ _ => True) .idle := by
  have hfree {p : Async Unit} (hp : p.Calls (S := sig) Elsewhere) :
      p.Follows (editing cfg) (fun _ _ => True) .idle :=
    (elsewhere_maintains hp).follows rfl fun _ _ _ => trivial
  by_cases hn : ∃ r jsonl, n = .request (.complete r jsonl)
  · obtain ⟨r, jsonl, rfl⟩ := hn
    exact (complete_editing cfg r jsonl).mono fun _ _ _ => trivial
  by_cases hl : ∃ r body, n = .request (.attachLogs r body)
  · obtain ⟨r, body, rfl⟩ := hl
    exact hfree (attachLogs_elsewhere r body)
  · exact hfree ((body_calls cfg n).mono fun op h =>
      elsewhere_of_may h (fun r jsonl he => hn ⟨r, jsonl, he⟩) fun r body he => hl ⟨r, body, he⟩)

/-- In every execution the leaderboard is what entries written one after another leave, some of
those that were written, the last among them. When no completion reads the file while another is
about to write it, they are all of them, so the file lists the last entry of every pair. -/
theorem leaderboard_serializable {w : World} {ls : List (Step cfg)} {p : System cfg}
    (h : (System.start cfg w).exec ls = some p) :
    (∃ kept : List Json, kept.Sublist (writtenEntries (System.start cfg w) ls) ∧
      kept.getLast? = (writtenEntries (System.start cfg w) ls).getLast? ∧
      p.world.s3.entries = upserts Json.pair w.s3.entries kept) ∧
    ((System.start cfg w).Obeys Apart ls →
      p.world.s3.entries = upserts Json.pair w.s3.entries
        (writtenEntries (System.start cfg w) ls) ∧
      ∀ before entry after, writtenEntries (System.start cfg w) ls = before ++ entry :: after →
        (∀ x ∈ after, x.pair ≠ entry.pair) →
        p.world.s3.entries.filter (fun x => x.pair = entry.pair) = [entry]) := by
  refine ⟨Cell.value_thinned (c := leaderboardCell cfg) (body_editing cfg) h, fun hC => ?_⟩
  have hserial : p.world.s3.entries = upserts Json.pair w.s3.entries
      (writtenEntries (System.start cfg w) ls) :=
    Cell.value_serial (c := leaderboardCell cfg) (body_editing cfg) h hC
  refine ⟨hserial, fun before entry after hsplit hlast => ?_⟩
  rw [hserial, hsplit]
  exact filter_upserts_last hlast

theorem leaderboard_serializable_of_completed :
    (Sample.start.play Sample.bothCompleted).world.s3.entries =
      upserts Json.pair [] (writtenEntries Sample.start Sample.bothCompleted) ∧
    (writtenEntries Sample.start Sample.bothCompleted).length = 2 :=
  ⟨((leaderboard_serializable (w := Sample.world)
    (Pool.exec_play Sample.start Sample.bothCompleted (by decide +kernel))).2
      (by decide +kernel)).1, by decide +kernel⟩

end GrillPlatform
