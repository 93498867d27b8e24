import GrillPlatform.Footprint

/-! The runner's log and the one the server keeps. `_post_logs` of `runner.sh` cuts a long log to
halves of 2.5 MiB around a marker, and `attach_logs` cuts what it is sent above 5 MiB to halves of
2 MiB. -/

namespace GrillPlatform
open Coroutine
variable {cfg : Config}

/-- The body `_post_logs` sends for the contents of the log file. -/
def Runner.postLogs (logFile : List UInt8) : List UInt8 :=
  let size := logFile.length
  if size ≤ 5242880 then logFile
  else
    logFile.take 2621440 ++
      RunService.asciiBytes s!"\n[... truncated middle {size - 5242880} bytes ...]\n" ++
      logFile.drop (size - 2621440)

namespace RunService

/-- The marker of either truncation. -/
def marker (missing : Nat) : List UInt8 :=
  asciiBytes s!"\n[... truncated middle {missing} bytes ...]\n"

theorem length_marker (missing : Nat) : (marker missing).length = missing.repr.length + 35 := by
  have h : s!"\n[... truncated middle {missing} bytes ...]\n" =
      "\n[... truncated middle " ++ missing.repr ++ " bytes ...]\n" := rfl
  rw [marker, asciiBytes, List.length_map, h, String.length_toList, String.length_append,
    String.length_append]
  have hl : "\n[... truncated middle ".length = 23 := by decide
  have hr : " bytes ...]\n".length = 12 := by decide
  omega

theorem truncateLogs_of_le {body : List UInt8} (h : body.length ≤ maxLogBytes) :
    truncateLogs body = body := if_neg (Nat.not_lt.2 h)

theorem length_truncateLogs {body : List UInt8} (h : maxLogBytes < body.length) :
    (truncateLogs body).length =
      2 * halfLogBytes + (marker (body.length - 2 * halfLogBytes)).length := by
  have hhalf : halfLogBytes ≤ body.length := (by decide : halfLogBytes ≤ maxLogBytes).trans h.le
  rw [truncateLogs, if_pos h, List.length_append, List.length_append, List.length_take,
    List.length_drop, min_eq_left hhalf, Nat.sub_sub_self hhalf, ← marker]
  omega

theorem length_repr_le (k : Nat) : (1048611 + k).repr.length ≤ 1048575 + k := by
  rw [Nat.length_repr_le_iff (by omega)]
  have hlt : 1048574 + k < 10 ^ (1048574 + k) := Nat.lt_pow_self (by decide)
  calc 1048611 + k < (1048574 + k + 1) * 10 := by omega
    _ ≤ 10 ^ (1048574 + k) * 10 := Nat.mul_le_mul_right 10 hlt
    _ = 10 ^ (1048575 + k) := by rw [← pow_succ, show 1048574 + k + 1 = 1048575 + k by omega]

/-- What may be kept of a body: a short one whole, of a long one the first and the last 2 MiB around
one marker, which counts what is left out between them. -/
structure Kept (body kept : List UInt8) : Prop where
  short : body.length ≤ 5 * 2 ^ 20 → kept = body
  long : 5 * 2 ^ 20 < body.length → ∃ head middle tail, body = head ++ middle ++ tail ∧
    head.length = 2 * 2 ^ 20 ∧ tail.length = 2 * 2 ^ 20 ∧
    kept = head ++ marker middle.length ++ tail
  fits : kept.length ≤ 5 * 2 ^ 20

theorem take_middle_drop {α : Type} {l : List α} {n : Nat} (h : 2 * n ≤ l.length) :
    l = l.take n ++ (l.drop n).take (l.length - 2 * n) ++ l.drop (l.length - n) := by
  have hdrop : l.drop (l.length - n) = (l.drop n).drop (l.length - 2 * n) := by
    rw [List.drop_drop]
    congr 1
    omega
  rw [hdrop, List.append_assoc, List.take_append_drop, List.take_append_drop]

theorem kept_truncateLogs {body : List UInt8} (h : body.length < 2 ^ 64) :
    Kept body (truncateLogs body) where
  short := truncateLogs_of_le
  long hlong := by
    have hhalf : 2 * halfLogBytes ≤ body.length :=
      (by decide : 2 * halfLogBytes ≤ 5 * 2 ^ 20).trans hlong.le
    have hmiddle : ((body.drop halfLogBytes).take (body.length - 2 * halfLogBytes)).length =
        body.length - 2 * halfLogBytes := by
      rw [List.length_take, List.length_drop]
      omega
    refine ⟨_, _, _, take_middle_drop hhalf, ?_, ?_, ?_⟩
    · exact List.length_take_of_le (by omega)
    · rw [List.length_drop, Nat.sub_sub_self (by omega)]
      rfl
    · rw [hmiddle]
      exact if_pos hlong
  fits := by
    rcases Nat.lt_or_ge maxLogBytes body.length with hlong | hshort
    · have hdigits : (body.length - 2 * halfLogBytes).repr.length ≤ 20 := by
        rw [Nat.length_repr_le_iff (by decide)]
        calc body.length - 2 * halfLogBytes ≤ body.length := Nat.sub_le ..
          _ < 2 ^ 64 := h
          _ < 10 ^ 20 := by decide
      -- twenty digits and the text around them fit into the fifth MiB
      have hhalf : halfLogBytes = 2097152 := rfl
      rw [length_truncateLogs hlong, length_marker]
      omega
    · rw [truncateLogs_of_le hshort]
      exact hshort

theorem Kept.truncateLogs {body kept : List UInt8} (h : Kept body kept) :
    RunService.truncateLogs kept = kept := truncateLogs_of_le h.fits

end RunService

theorem Runner.length_postLogs {log : List UInt8} (h : 5242880 < log.length) :
    (postLogs log).length = 5242880 + (RunService.marker (log.length - 5242880)).length := by
  rw [postLogs, if_neg (Nat.not_le.2 h), List.length_append, List.length_append, List.length_take,
    List.length_drop, ← RunService.marker]
  omega

/-- The server leaves alone what the runner left alone, and nothing else. -/
theorem truncateLogs_postLogs_iff (log : List UInt8) :
    RunService.truncateLogs (Runner.postLogs log) = Runner.postLogs log ↔ log.length ≤ 5242880 := by
  constructor
  · intro he
    by_contra hlong
    have hbody := Runner.length_postLogs (Nat.lt_of_not_le hlong)
    rw [RunService.length_marker] at hbody
    have hmax : RunService.maxLogBytes = 5242880 := rfl
    have hcut := RunService.length_truncateLogs
      (show RunService.maxLogBytes < (Runner.postLogs log).length by omega)
    rw [he, RunService.length_marker, hbody,
      show RunService.halfLogBytes = 2097152 from rfl] at hcut
    -- the second marker would have to fill the halves up
    have hdigits := RunService.length_repr_le ((log.length - 5242880).repr.length)
    rw [show 5242880 + ((log.length - 5242880).repr.length + 35) - 2 * 2097152 =
      1048611 + (log.length - 5242880).repr.length by omega] at hcut
    omega
  · intro h
    rw [Runner.postLogs, if_pos h]
    exact RunService.truncateLogs_of_le h

/-- If the task is a POST of a log, the call uploads at most what the truncation leaves of it. -/
def Uploads (n : TaskName) (op : Op) : Prop :=
  ∀ r body, n = .request (.attachLogs r body) → ∀ key content,
    op = .s3 (.putObject key content) → content = .log (RunService.truncateLogs body)

theorem body_uploads (cfg : Config) (n : TaskName) : (n.body cfg).Calls (S := sig) (Uploads n) := by
  by_cases hn : ∃ r body, n = .request (.attachLogs r body)
  · obtain ⟨r, body, rfl⟩ := hn
    have hdb : ∀ q, Uploads (.request (.attachLogs r body)) (.db q) := by
      intro q _ _ _ _ _ h
      cases h
    refine calls_query_bind.2 ⟨hdb _, fun found => ?_⟩
    match found with
    | none => trivial
    | some run =>
      refine Prog.calls_bind (calls_s3_bind.2 ⟨?_, fun _ => trivial⟩) fun key =>
        calls_query_bind.2 ⟨hdb _, fun _ => calls_query_bind.2 ⟨hdb _, fun run' => ?_⟩⟩
      · intro _ _ h key content hop
        cases h
        cases hop
        rfl
      · split <;> trivial
  · exact (body_calls cfg n).mono fun op _ r body h => absurd ⟨r, body, h⟩ hn

/-- In every execution, what a POST of a log uploads is what may be kept of its body, and would be
kept again. -/
theorem attachLogs_keeps {w : World} {p : System cfg} {i : Nat} {r : RunId} {body : List UInt8}
    {key : S3Key} {content : S3Body}
    {next : sig.Resp (.s3 (.putObject key content)) → Prog sig Exc Unit}
    (h : System.Reachable (System.start cfg w) p)
    (ht : p.tasks[i]? =
      some ⟨.request (.attachLogs r body), .call (.s3 (.putObject key content)) next⟩)
    (hbody : body.length < 2 ^ 64) :
    ∃ kept, content = .log kept ∧ RunService.Kept body kept ∧
    RunService.truncateLogs kept = kept := by
  have hkept := RunService.kept_truncateLogs hbody
  exact ⟨_, (h.calls (body_uploads cfg) ht).1 _ _ rfl _ _ rfl, hkept, hkept.truncateLogs⟩

theorem attachLogs_keeps_long : ∃ kept,
    S3Body.log (RunService.truncateLogs (List.replicate 5242881 104)) = .log kept ∧
    RunService.Kept (List.replicate 5242881 104) kept ∧ RunService.truncateLogs kept = kept := by
  have hp : ∀ body, (Sample.start.exec (Sample.running 7 ++
      .arrive (.request (.attachLogs 7 body)) :: Sample.steps 5 1)).isSome = true := fun _ => rfl
  exact attachLogs_keeps (Pool.reach_play Sample.start _ (hp _)) (i := 5) rfl
    (by rw [List.length_replicate]; decide)

/-- In every execution, what a POST of the runner's body stores is that body exactly when the log
was not cut by the runner. -/
theorem logs_unchanged_iff {w : World} {p q : System cfg} {i : Nat} {r : RunId} {log : List UInt8}
    {key : S3Key} {body : S3Body} {e : Env}
    {next : sig.Resp (.s3 (.putObject key body)) → Prog sig Exc Unit}
    (h : System.Reachable (System.start cfg w) p)
    (ht : p.tasks[i]? = some ⟨.request (.attachLogs r (Runner.postLogs log)),
      .call (.s3 (.putObject key body)) next⟩)
    (he : e.fault = .none) (hs : p.step (.run i e) = some q) :
    q.world.s3 key = some (.log (Runner.postLogs log)) ↔ log.length ≤ 5242880 := by
  have hbody := (h.calls (body_uploads cfg) ht).1 _ _ rfl _ _ rfl
  have hput : q.world.s3 key = some body := by
    simp only [Pool.step, ht, Option.some.injEq] at hs
    rw [← hs]
    show (e.guard p.world.s3 (.ok (), Function.update p.world.s3 key (some body))).2 key = _
    rw [Env.guard, he]
    exact Function.update_self ..
  rw [hput, hbody, ← truncateLogs_postLogs_iff]
  simp

theorem logs_unchanged_of_running :
    let p := Sample.start.play (Sample.running 7 ++
      .arrive (.request (.attachLogs 7 (Runner.postLogs [104, 105]))) :: Sample.steps 5 1)
    (p.play (Sample.steps 5 1)).world.s3 (runLogsKey "m" .vllm 7) =
      some (.log (Runner.postLogs [104, 105])) ∧ [104, 105].length ≤ 5242880 := by
  have hp : (Sample.start.exec (Sample.running 7 ++
      .arrive (.request (.attachLogs 7 (Runner.postLogs [104, 105]))) ::
        Sample.steps 5 1)).isSome := by decide
  exact ⟨(logs_unchanged_iff (Pool.reach_play Sample.start _ hp) (i := 5) (e := {}) rfl rfl
    rfl).2 (by decide), by decide⟩

/-- A log one byte too long is cut twice. -/
theorem logs_changed : ¬ ∀ log : List UInt8,
    RunService.truncateLogs (Runner.postLogs log) = Runner.postLogs log := by
  intro h
  have hlen := (truncateLogs_postLogs_iff _).1 (h (List.replicate 5242881 0))
  rw [List.length_replicate] at hlen
  exact absurd hlen (by decide)

end GrillPlatform
