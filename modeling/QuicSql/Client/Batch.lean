import QuicSql.Httpapi.Pipeline

/-!
# The client's batch

`Client.Batch` sends its statements as one pipeline request and closes the stream
with it. Its documentation recommends to wrap the statements in BEGIN and COMMIT
where all or nothing is wanted.
-/

namespace QuicSql.Client

open Lib.Txn Engine Httpapi

universe u v

variable {ε : Type u} {D : Type v}

inductive BatchErr where
  | short (got want : Nat)
  | statement (index : Nat) (err : HError)
deriving DecidableEq, Repr

def executeRequest (s : Statement ε) : StreamRequest ε := .execute (some ⟨some s, none⟩)

def collect : Nat → List StreamResult → Except BatchErr Nat
  | i, [] => .ok i
  | i, .error e :: _ => .error (.statement i e)
  | i, .ok _ :: rest => collect (i + 1) rest

/-- `attach` says whether the server opens the stream with ATTACH allowed. -/
def batch (eff : ε → D → D) (ok : Nat → Nat → Bool) (rollback attach : Bool) (d : D)
    (stmts : List (Statement ε)) : Conn D × Except BatchErr Nat :=
  if stmts.isEmpty then (Conn.idle d, .ok 0)
  else
    match handlePipeline eff ok rollback ⟨Conn.idle d, ∅, attach⟩ (stmts.map executeRequest ++ [.close]) with
    | (conn, _, results) =>
      if results.length < stmts.length then (conn, .error (.short results.length stmts.length))
      else (conn, collect 0 (results.take stmts.length))

theorem collect_not_short (i got want : Nat) (results : List StreamResult) :
    collect i results ≠ .error (.short got want) := by
  induction results generalizing i with
  | nil => nofun
  | cons r rest ih =>
    cases r with
    | error e => nofun
    | ok response => exact ih (i + 1)

theorem batch_not_short (eff : ε → D → D) (ok : Nat → Nat → Bool) (rollback attach : Bool) (d : D)
    (stmts : List (Statement ε)) (got want : Nat) :
    (batch eff ok rollback attach d stmts).2 ≠ .error (.short got want) := by
  have hLength := handlePipeline_length eff ok rollback ⟨Conn.idle d, ∅, attach⟩
    (stmts.map executeRequest ++ [.close])
  rw [List.length_append, List.length_map] at hLength
  unfold batch
  split
  · nofun
  · split
    rename_i hServed
    rw [hServed] at hLength
    rw [if_neg (by dsimp only at hLength; omega)]
    exact collect_not_short 0 got want _

/-! ## Statements that only change -/

/-- A statement that is no transaction control: its text makes changes and nothing else. -/
structure Ordinary (ε : Type u) where
  sql : String
  labels : List ε

def Ordinary.statement (s : Ordinary ε) : Statement ε := ⟨s.sql, s.labels.map .change, false⟩

def wrapped (stmts : List (Ordinary ε)) : List (Statement ε) :=
  ⟨"BEGIN", [.begin], false⟩ :: (stmts.map Ordinary.statement ++ [⟨"COMMIT", [.commit], false⟩])

def Ordinary.effect (eff : ε → D → D) (attach : Bool) (s : Ordinary ε) (d : D) (ok : Nat → Bool) : D × Bool :=
  if denied { s.statement with allowAttach := attach } then (d, false) else changeAll eff d s.labels ok

/-- What the statements make of the database, failures left out, and whether all succeed. -/
def effects (eff : ε → D → D) (attach : Bool) (ok : Nat → Nat → Bool) : Nat → D → List (Ordinary ε) → D × Bool
  | _, d, [] => (d, true)
  | i, d, s :: rest =>
    match s.effect eff attach d (ok i) with
    | (d', ran) =>
      match effects eff attach ok (i + 1) d' rest with
      | (d'', all) => (d'', ran && all)

def WrappedAtomic (eff : ε → D → D) (ok : Nat → Nat → Bool) (rollback attach : Bool) (d : D)
    (stmts : List (Ordinary ε)) : Prop :=
  match batch eff ok rollback attach d (wrapped stmts) with
  | (conn, .ok n) =>
    n = stmts.length + 2 ∧ conn.committed = stmts.foldl (fun d s => replay eff d s.labels) d
  | (conn, .error _) => conn.committed = d

theorem effect_of_ok {eff : ε → D → D} {attach : Bool} {s : Ordinary ε} {d : D} {ok : Nat → Bool}
    (h : (s.effect eff attach d ok).2 = true) : (s.effect eff attach d ok).1 = replay eff d s.labels := by
  unfold Ordinary.effect at h ⊢
  split at h
  · cases h
  · rename_i hDenied
    rw [if_neg hDenied]
    exact changeAll_of_ok h

theorem effects_of_ok {eff : ε → D → D} {attach : Bool} {ok : Nat → Nat → Bool} {i : Nat} {d : D}
    {stmts : List (Ordinary ε)} (h : (effects eff attach ok i d stmts).2 = true) :
    (effects eff attach ok i d stmts).1 = stmts.foldl (fun d s => replay eff d s.labels) d := by
  induction stmts generalizing i d with
  | nil => rfl
  | cons s rest ih =>
    obtain ⟨hRan, hAll⟩ := Bool.and_eq_true_iff.mp h
    rw [List.foldl_cons, ← effect_of_ok hRan]
    exact ih hAll

/-! ## The requests of a wrapped batch -/

section Placed

variable {eff : ε → D → D} {place : D → Conn D}

theorem runStreamRequest_ordinary
    (hPlace : ∀ label d, (place d).apply eff (.change label) = some (place (eff label d)))
    (sqls : Finmap (fun _ : Int => Statement ε)) (attach : Bool) (d : D) (s : Ordinary ε) (ok : Nat → Bool) :
    runStreamRequest eff ⟨place d, sqls, attach⟩ ok (executeRequest s.statement) =
      (⟨place (s.effect eff attach d ok).1, sqls, attach⟩,
        if (s.effect eff attach d ok).2 then .ok .execute else .error .statement, false) := by
  have hRun : run eff (place d) { s.statement with allowAttach := attach } ok =
      (place (s.effect eff attach d ok).1, (s.effect eff attach d ok).2) := by
    unfold run Ordinary.effect
    split
    · rfl
    · exact execAll_change hPlace d s.labels ok
  simp only [executeRequest, runStreamRequest, execStmt, resolveSql, hRun]
  cases (s.effect eff attach d ok).2 <;> rfl

/-- The statements run one after another wherever the connection stands, failed or not,
and their results come first. -/
theorem serve_ordinary
    (hPlace : ∀ label d, (place d).apply eff (.change label) = some (place (eff label d)))
    (ok : Nat → Nat → Bool) (sqls : Finmap (fun _ : Int => Statement ε)) (attach : Bool)
    (stmts : List (Ordinary ε)) (rest : List (StreamRequest ε)) (i : Nat) (d : D) :
    ∃ results : List StreamResult, results.length = stmts.length ∧
      results.all (fun r => r.isOk) = (effects eff attach ok i d stmts).2 ∧
      ∀ s' closed tail,
        serve eff ok (i + stmts.length) ⟨place (effects eff attach ok i d stmts).1, sqls, attach⟩ false rest =
          (s', closed, tail) →
        serve eff ok i ⟨place d, sqls, attach⟩ false
          ((stmts.map Ordinary.statement).map executeRequest ++ rest) = (s', closed, results ++ tail) := by
  induction stmts generalizing i d with
  | nil => exact ⟨[], rfl, rfl, fun _ _ _ h => h⟩
  | cons s stmts ih =>
    obtain ⟨results, hLength, hAll, hServe⟩ := ih (i + 1) (s.effect eff attach d (ok i)).1
    refine ⟨(if (s.effect eff attach d (ok i)).2 then .ok .execute else .error .statement) :: results,
      congrArg (· + 1) hLength, ?_, ?_⟩
    · rw [List.all_cons, hAll]
      change _ = ((s.effect eff attach d (ok i)).2 && _)
      cases (s.effect eff attach d (ok i)).2 <;> rfl
    · intro s' closed tail hRest
      have hTail := hServe s' closed tail (by rw [← hRest, Nat.add_right_comm]; rfl)
      rw [List.map_cons, List.map_cons, List.cons_append, serve, runStreamRequest_ordinary hPlace]
      simp only [hTail]
      rfl

end Placed

theorem collect_of_all (results : List StreamResult) (h : results.all (fun r => r.isOk) = true) (i : Nat) :
    collect i results = .ok (i + results.length) := by
  induction results generalizing i with
  | nil => rfl
  | cons r rest ih =>
    obtain ⟨hHead, hRest⟩ := Bool.and_eq_true_iff.mp h
    cases r with
    | error e => cases hHead
    | ok response =>
      rw [collect, ih hRest, List.length_cons]
      congr 1
      omega

theorem collect_of_not_all {results : List StreamResult} (h : results.all (fun r => r.isOk) = false) (i : Nat) :
    ∃ e, collect i results = .error e := by
  induction results generalizing i with
  | nil => cases h
  | cons r rest ih =>
    cases r with
    | error e => exact ⟨_, rfl⟩
    | ok response => exact ih h (i + 1)

theorem runStreamRequest_begin (eff : ε → D → D) (sqls : Finmap (fun _ : Int => Statement ε)) (attach : Bool)
    (d : D) (ok : Nat → Bool) :
    runStreamRequest eff ⟨Conn.idle d, sqls, attach⟩ ok (executeRequest ⟨"BEGIN", [.begin], false⟩) =
      if ok 0 then (⟨begun d, sqls, attach⟩, .ok .execute, false)
      else (⟨Conn.idle d, sqls, attach⟩, .error .statement, false) := by
  have hToken : String.ofList ((firstToken "BEGIN").toList.map upperAscii) ∉ deniedTokens := by decide +kernel
  have hDenied : denied (⟨"BEGIN", [.begin], attach⟩ : Statement ε) = false := not_denied hToken
  simp only [executeRequest, runStreamRequest, execStmt, resolveSql, run, hDenied, Conn.execAll, exec_begin_idle]
  cases ok 0 <;> rfl

theorem runStreamRequest_commit (eff : ε → D → D) (sqls : Finmap (fun _ : Int => Statement ε)) (attach : Bool)
    (c : Conn D) (ok : Nat → Bool) :
    runStreamRequest eff ⟨c, sqls, attach⟩ ok (executeRequest ⟨"COMMIT", [.commit], false⟩) =
      if ok 0 && c.tx.isSome then (⟨Conn.idle c.work, sqls, attach⟩, .ok .execute, false)
      else (⟨c, sqls, attach⟩, .error .statement, false) := by
  have hToken : String.ofList ((firstToken "COMMIT").toList.map upperAscii) ∉ deniedTokens := by decide +kernel
  have hDenied : denied (⟨"COMMIT", [.commit], attach⟩ : Statement ε) = false := not_denied hToken
  obtain ⟨committed, work, tx⟩ := c
  simp only [executeRequest, runStreamRequest, execStmt, resolveSql, run, hDenied, Conn.execAll, Conn.exec,
    Conn.apply]
  cases ok 0 <;> cases tx <;> rfl

theorem serve_commit_close (eff : ε → D → D) (ok : Nat → Nat → Bool) (i : Nat)
    (sqls : Finmap (fun _ : Int => Statement ε)) (attach : Bool) (c : Conn D) :
    serve eff ok i ⟨c, sqls, attach⟩ false [executeRequest ⟨"COMMIT", [.commit], false⟩, .close] =
      if ok i 0 && c.tx.isSome then (⟨Conn.idle c.work, sqls, attach⟩, true, [.ok .execute, .ok .close])
      else (⟨c, sqls, attach⟩, true, [.error .statement, .ok .close]) := by
  rw [serve, runStreamRequest_commit]
  cases ok i 0 && c.tx.isSome <;> rfl

/-- A wrapped batch after its BEGIN: the connection stands at `place d`, in the transaction
or, if BEGIN failed, in autocommit mode. -/
theorem batch_placed {eff : ε → D → D} {ok : Nat → Nat → Bool} {attach : Bool} {d : D} {first : StreamResult}
    (place : D → Conn D)
    (hPlace : ∀ label d, (place d).apply eff (.change label) = some (place (eff label d)))
    (hBegin : runStreamRequest eff ⟨Conn.idle d, ∅, attach⟩ (ok 0) (executeRequest ⟨"BEGIN", [.begin], false⟩) =
      (⟨place d, ∅, attach⟩, first, false))
    (rollback : Bool) (stmts : List (Ordinary ε)) :
    ∃ results : List StreamResult, results.length = stmts.length ∧
      results.all (fun r => r.isOk) = (effects eff attach ok 1 d stmts).2 ∧
      batch eff ok rollback attach d (wrapped stmts) =
        let c := place (effects eff attach ok 1 d stmts).1
        if ok (1 + stmts.length) 0 && c.tx.isSome then
          (((Conn.idle c.work).exec eff .rollback rollback).1, collect 0 (first :: (results ++ [.ok .execute])))
        else ((c.exec eff .rollback rollback).1, collect 0 (first :: (results ++ [.error .statement]))) := by
  obtain ⟨results, hLength, hAll, hServe⟩ := serve_ordinary hPlace ok ∅ attach stmts
    [executeRequest ⟨"COMMIT", [.commit], false⟩, .close] 1 d
  refine ⟨results, hLength, hAll, ?_⟩
  have hRequests : (wrapped stmts).map executeRequest ++ [.close] =
      executeRequest ⟨"BEGIN", [.begin], false⟩ :: ((stmts.map Ordinary.statement).map executeRequest ++
        [executeRequest ⟨"COMMIT", [.commit], false⟩, .close]) := by
    simp [wrapped]
  have hCount : (wrapped stmts).length = stmts.length + 2 := by simp [wrapped]
  have hTake : ∀ last : StreamResult, (first :: (results ++ [last, .ok .close])).take (stmts.length + 2) =
      first :: (results ++ [last]) := by
    intro last
    rw [← hLength]
    simp [List.take_append]
  have hEnd := serve_commit_close eff ok (1 + stmts.length) ∅ attach (place (effects eff attach ok 1 d stmts).1)
  unfold batch handlePipeline
  rw [if_neg (by simp [wrapped]), hRequests, serve, hBegin, hCount]
  dsimp only
  split at hEnd
  · rename_i hDone
    rw [if_pos hDone]
    simp only [hServe _ _ _ hEnd]
    rw [if_neg (by simp [hLength]), hTake]
  · rename_i hDone
    rw [if_neg hDone]
    simp only [hServe _ _ _ hEnd]
    rw [if_neg (by simp [hLength]), hTake]

/-! ## Exactly when a wrapped batch is all or nothing -/

theorem wrappedAtomic_of_error {eff : ε → D → D} {ok : Nat → Nat → Bool} {rollback attach : Bool} {d : D}
    {stmts : List (Ordinary ε)} {conn : Conn D} {results : List StreamResult}
    (hBatch : batch eff ok rollback attach d (wrapped stmts) = (conn, collect 0 results))
    (hFailed : results.all (fun r => r.isOk) = false) :
    WrappedAtomic eff ok rollback attach d stmts ↔ conn.committed = d := by
  obtain ⟨e, hCollect⟩ := collect_of_not_all hFailed 0
  unfold WrappedAtomic
  rw [hBatch, hCollect]

/-- On any input, a batch wrapped in BEGIN and COMMIT is all or nothing exactly when
everything succeeds, or COMMIT fails in the transaction, or the statements that do
succeed make nothing of the database. -/
theorem wrapped_batch_atomic_iff (eff : ε → D → D) (ok : Nat → Nat → Bool) (rollback attach : Bool) (d : D)
    (stmts : List (Ordinary ε)) :
    WrappedAtomic eff ok rollback attach d stmts ↔
      (ok 0 0 = true ∧ (effects eff attach ok 1 d stmts).2 = true ∧ ok (1 + stmts.length) 0 = true) ∨
      (ok 0 0 = true ∧ ok (1 + stmts.length) 0 = false) ∨
      (effects eff attach ok 1 d stmts).1 = d := by
  have hBegin := runStreamRequest_begin eff ∅ attach d (ok 0)
  cases hBegun : ok 0 0 with
  | false =>
    rw [hBegun, if_neg Bool.false_ne_true] at hBegin
    obtain ⟨results, -, -, hBatch⟩ := batch_placed Conn.idle (fun _ _ => rfl) hBegin rollback stmts
    -- Each statement commits for itself, and there is no transaction to commit.
    rw [if_neg (by simp [Conn.idle])] at hBatch
    rw [wrappedAtomic_of_error hBatch rfl, exec_rollback_committed]
    simp [Conn.idle]
  | true =>
    rw [hBegun, if_pos rfl] at hBegin
    obtain ⟨results, hLength, hAll, hBatch⟩ :=
      batch_placed (fun w => ⟨d, w, some ⟨[], false⟩⟩) (fun _ _ => rfl) hBegin rollback stmts
    cases hCommit : ok (1 + stmts.length) 0 with
    | false =>
      rw [hCommit, if_neg (by simp)] at hBatch
      rw [wrappedAtomic_of_error hBatch (by simp [Except.isOk, Except.toBool]), exec_rollback_committed]
      simp
    | true =>
      rw [hCommit, if_pos (by simp)] at hBatch
      cases hRan : (effects eff attach ok 1 d stmts).2 with
      | false =>
        rw [wrappedAtomic_of_error hBatch (by simp [hAll, hRan]), exec_rollback_committed]
        simp [Conn.idle]
      | true =>
        have hCollect := collect_of_all (.ok .execute :: (results ++ [.ok .execute]))
          (by rw [List.all_cons, List.all_append, hAll, hRan]; rfl) 0
        unfold WrappedAtomic
        rw [hBatch, hCollect]
        simp [exec_rollback_committed, Conn.idle, hLength, effects_of_ok hRan]

theorem wrapped_commits_after_failure :
    ¬ WrappedAtomic (fun (row : Nat) rows => rows ++ [row]) (fun i _ => i ≠ 2) true false []
      [⟨"INSERT INTO t VALUES (1)", [1]⟩, ⟨"INSERT INTO t VALUES (1)", [1]⟩] := by
  have hBatch : batch (fun (row : Nat) rows => rows ++ [row]) (fun i _ => i ≠ 2) true false []
      (wrapped [⟨"INSERT INTO t VALUES (1)", [1]⟩, ⟨"INSERT INTO t VALUES (1)", [1]⟩]) =
        (Conn.idle [1], .error (.statement 2 .statement)) := by
    decide +kernel
  rw [WrappedAtomic, hBatch]
  decide

end QuicSql.Client
