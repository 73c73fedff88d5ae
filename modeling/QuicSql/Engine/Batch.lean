import QuicSql.Lib.Txn

/-!
# The native batch

`Engine.Batch` wraps a list of statements in a transaction. The statements share
the connection with the wrapper, and their text may itself end or start a
transaction.
-/

namespace QuicSql.Engine

open Lib.Txn

/-! ## Running one statement -/

def isBlank (c : Char) : Bool := c = ' ' || c = '\t' || c = '\r' || c = '\n' || c = '\x0c'

def afterNewline (sql : List Char) : List Char := (sql.dropWhile (fun c => c ≠ '\n')).tail

/-- What follows the first closing of a block comment, searched from its opening on. -/
def afterBlock : List Char → List Char
  | '*' :: '/' :: rest => rest
  | _ :: rest => afterBlock rest
  | [] => []

def firstTokenLoop : Nat → List Char → List Char
  | 0, _ => []
  | fuel + 1, sql =>
    match sql.dropWhile isBlank with
    | '-' :: '-' :: rest => firstTokenLoop fuel (afterNewline ('-' :: '-' :: rest))
    | '/' :: '*' :: rest => firstTokenLoop fuel (afterBlock ('/' :: '*' :: rest))
    | sql' => sql'.takeWhile (fun c => !isBlank c && c ≠ '(')

theorem afterNewline_length {sql : List Char} (h : sql ≠ []) : (afterNewline sql).length < sql.length := by
  have hDrop := (List.dropWhile_sublist (l := sql) (fun c => decide (c ≠ '\n'))).length_le
  have hPos := List.length_pos_iff.mpr h
  rw [afterNewline, List.length_tail]
  omega

theorem afterBlock_length (sql : List Char) : (afterBlock sql).length ≤ sql.length := by
  fun_induction afterBlock sql with
  | case1 rest => simp only [List.length_cons]; omega
  | case2 c rest _ ih => simp only [List.length_cons]; omega
  | case3 => exact Nat.le_refl _

def firstToken (sql : String) : String :=
  let chars := match sql.toList with
    | '\ufeff' :: rest => rest
    | chars => chars
  String.ofList (firstTokenLoop (chars.length + 1) chars)

def upperAscii (c : Char) : Char := if 'a' ≤ c ∧ c ≤ 'z' then Char.ofNat (c.toNat - 32) else c

def deniedTokens : List String := ["ATTACH", "DETACH"]

universe u v

variable {ε : Type u} {D : Type v}

structure Statement (ε : Type u) where
  sql : String
  cmds : List (Cmd ε)
  allowAttach : Bool := false
deriving DecidableEq, Repr

@[irreducible] def denied (s : Statement ε) : Bool :=
  String.ofList ((firstToken s.sql).toList.map upperAscii) ∈ deniedTokens && !s.allowAttach

theorem not_denied {s : Statement ε}
    (h : String.ofList ((firstToken s.sql).toList.map upperAscii) ∉ deniedTokens) : denied s = false := by
  unfold denied
  rw [decide_eq_false h, Bool.false_and]

/-- `ok k` is false when the statement's command `k` fails by itself. -/
def run (eff : ε → D → D) (c : Conn D) (s : Statement ε) (ok : Nat → Bool) : Conn D × Bool :=
  if denied s then (c, false) else c.execAll eff s.cmds ok

/-! ## The batch -/

inductive Err where
  | begin
  | statement (index : Nat)
  | commit
deriving DecidableEq, Repr

structure Outcomes where
  begin : Bool
  statement : Nat → Nat → Bool
  rollback : Bool
  commit : Bool

/-- The loop over the statements, with the results so far; an error carries the index
of the statement that failed. -/
def batchLoop (eff : ε → D → D) (ok : Nat → Nat → Bool) :
    Nat → Conn D → List (Statement ε) → Conn D × Except Nat Nat
  | i, c, [] => (c, .ok i)
  | i, c, s :: rest =>
    match run eff c s (ok i) with
    | (c', false) => (c', .error i)
    | (c', true) => batchLoop eff ok (i + 1) c' rest

def batch (eff : ε → D → D) (ok : Outcomes) (c : Conn D) (stmts : List (Statement ε)) :
    Conn D × Except Err Nat :=
  match c.exec eff .begin ok.begin with
  | (c, false) => (c, .error .begin)
  | (c, true) =>
    match batchLoop eff ok.statement 0 c stmts with
    | (c, .error i) => ((c.exec eff .rollback ok.rollback).1, .error (.statement i))
    | (c, .ok n) =>
      match c.exec eff .commit ok.commit with
      | (c, false) => (c, .error .commit)
      | (c, true) => (c, .ok n)

def begun (d : D) : Conn D := ⟨d, d, some ⟨[], false⟩⟩

/-- The statements as one text, up to the first that `Run` refuses. -/
def script (stmts : List (Statement ε)) : List (Cmd ε) :=
  (stmts.takeWhile (fun s => !denied s)).flatMap Statement.cmds

def meaning (eff : ε → D → D) (d : D) (stmts : List (Statement ε)) : D :=
  ((begun d).execAll eff (script stmts) (fun _ => true)).1.work

def Atomic (eff : ε → D → D) (ok : Outcomes) (d : D) (stmts : List (Statement ε)) : Prop :=
  match batch eff ok (Conn.idle d) stmts with
  | (c, .ok n) => n = stmts.length ∧ c.committed = meaning eff d stmts
  | (c, .error _) => c.committed = d

/-- The changes that the text of the statements commits by itself inside a transaction
begun before it. -/
def durable (stmts : List (Statement ε)) : List ε :=
  ((begun []).execAll record (script stmts) (fun _ => true)).1.committed

/-! ## The loop over its free run -/

theorem run_map (eff : ε → D → D) (d : D) (c : Conn (List ε)) (s : Statement ε) (ok : Nat → Bool) :
    run eff (c.map (replay eff d)) s ok =
      ((run record c s ok).1.map (replay eff d), (run record c s ok).2) := by
  unfold run
  split
  · rfl
  · exact execAll_map eff d c s.cmds ok

theorem batchLoop_failed {eff : ε → D → D} {ok : Nat → Nat → Bool} {i : Nat} {c c' : Conn D}
    {s : Statement ε} (h : run eff c s (ok i) = (c', false)) (rest : List (Statement ε)) :
    batchLoop eff ok i c (s :: rest) = (c', .error i) := by
  rw [batchLoop, h]

theorem batchLoop_done {eff : ε → D → D} {ok : Nat → Nat → Bool} {i : Nat} {c c' : Conn D}
    {s : Statement ε} (h : run eff c s (ok i) = (c', true)) (rest : List (Statement ε)) :
    batchLoop eff ok i c (s :: rest) = batchLoop eff ok (i + 1) c' rest := by
  rw [batchLoop, h]

theorem batchLoop_map (eff : ε → D → D) (ok : Nat → Nat → Bool) (d : D) (i : Nat) (c : Conn (List ε))
    (stmts : List (Statement ε)) :
    batchLoop eff ok i (c.map (replay eff d)) stmts =
      ((batchLoop record ok i c stmts).1.map (replay eff d), (batchLoop record ok i c stmts).2) := by
  induction stmts generalizing i c with
  | nil => rfl
  | cons s rest ih =>
    have hMap := run_map eff d c s (ok i)
    cases hRun : run record c s (ok i) with
    | mk c' done =>
      rw [hRun] at hMap
      cases done with
      | false => rw [batchLoop_failed hRun, batchLoop_failed hMap]
      | true =>
        rw [batchLoop_done hRun, batchLoop_done hMap]
        exact ih (i + 1) c'

theorem grown_run {c : Conn (List ε)} (hGrown : Grown c) (s : Statement ε) (ok : Nat → Bool) :
    Grown (run record c s ok).1 ∧ c.committed <+: (run record c s ok).1.committed := by
  unfold run
  split
  · exact ⟨hGrown, List.prefix_rfl⟩
  · exact hGrown.execAll s.cmds ok

theorem grown_batchLoop {c : Conn (List ε)} (hGrown : Grown c) (ok : Nat → Nat → Bool) (i : Nat)
    (stmts : List (Statement ε)) : c.committed <+: (batchLoop record ok i c stmts).1.committed := by
  induction stmts generalizing i c with
  | nil => exact List.prefix_rfl
  | cons s rest ih =>
    obtain ⟨hNext, hPrefix⟩ := grown_run hGrown s (ok i)
    cases hRun : run record c s (ok i) with
    | mk c' done =>
      rw [hRun] at hNext hPrefix
      cases done with
      | false => rwa [batchLoop_failed hRun]
      | true =>
        rw [batchLoop_done hRun]
        exact hPrefix.trans (ih hNext (i + 1))

theorem run_committed_prefix {c : Conn (List ε)} (hGrown : Grown c) (s : Statement ε) (ok : Nat → Bool) :
    (run record c s ok).1.committed <+: (run record c s (fun _ => true)).1.committed := by
  unfold run
  split
  · exact List.prefix_rfl
  · exact execAll_committed_prefix hGrown s.cmds ok

theorem run_of_ok {eff : ε → D → D} {c c' : Conn D} {s : Statement ε} {ok : Nat → Bool}
    (h : run eff c s ok = (c', true)) : run eff c s (fun _ => true) = (c', true) := by
  unfold run at h ⊢
  cases hDenied : denied s with
  | true => simp [hDenied] at h
  | false =>
    simp only [hDenied, Bool.false_eq_true, if_false] at h ⊢
    rw [← execAll_of_ok (by rw [h]), h]

/-- Whatever fails, no more becomes durable than when nothing fails by itself. -/
theorem batchLoop_committed_prefix {c : Conn (List ε)} (hGrown : Grown c) (ok : Nat → Nat → Bool) (i : Nat)
    (stmts : List (Statement ε)) :
    (batchLoop record ok i c stmts).1.committed <+:
      (batchLoop record (fun _ _ => true) i c stmts).1.committed := by
  induction stmts generalizing i c with
  | nil => exact List.prefix_rfl
  | cons s rest ih =>
    have hPrefix := run_committed_prefix hGrown s (ok i)
    cases hRun : run record c s (ok i) with
    | mk c' done =>
      cases done with
      | true =>
        have hNext := (grown_run hGrown s (ok i)).1
        rw [hRun] at hNext
        rw [batchLoop_done hRun, batchLoop_done (run_of_ok hRun)]
        exact ih hNext (i + 1)
      | false =>
        -- This run ends here; the other one goes on from at least what is durable now.
        rw [batchLoop_failed hRun]
        have hFree := (grown_run hGrown s (fun _ => true)).1
        cases hRunFree : run record c s (fun _ => true) with
        | mk c'' done =>
          rw [hRun, hRunFree] at hPrefix
          rw [hRunFree] at hFree
          cases done with
          | false => rwa [batchLoop_failed hRunFree]
          | true =>
            rw [batchLoop_done hRunFree]
            exact hPrefix.trans (grown_batchLoop hFree _ (i + 1) rest)

theorem batchLoop_of_ok {eff : ε → D → D} {ok : Nat → Nat → Bool} {i n : Nat} {c c' : Conn D}
    {stmts : List (Statement ε)} (h : batchLoop eff ok i c stmts = (c', .ok n)) :
    n = i + stmts.length ∧ batchLoop eff (fun _ _ => true) i c stmts = (c', .ok n) := by
  induction stmts generalizing i c with
  | nil =>
    cases h
    exact ⟨rfl, rfl⟩
  | cons s rest ih =>
    cases hRun : run eff c s (ok i) with
    | mk c'' done =>
      cases done with
      | false =>
        rw [batchLoop_failed hRun] at h
        cases h
      | true =>
        rw [batchLoop_done hRun] at h
        obtain ⟨hCount, hFree⟩ := ih h
        rw [batchLoop_done (run_of_ok hRun)]
        exact ⟨by rw [hCount, List.length_cons]; omega, hFree⟩

/-- When nothing fails by itself, the loop is one run of the whole text. -/
theorem batchLoop_script (eff : ε → D → D) (i : Nat) (c : Conn D) (stmts : List (Statement ε)) :
    (batchLoop eff (fun _ _ => true) i c stmts).1 = (c.execAll eff (script stmts) (fun _ => true)).1 := by
  induction stmts generalizing i c with
  | nil => rfl
  | cons s rest ih =>
    cases hDenied : denied s with
    | true =>
      have hRun : run eff c s (fun _ => true) = (c, false) := by rw [run, if_pos hDenied]
      rw [batchLoop_failed hRun, script, List.takeWhile_cons_of_neg (by simp [hDenied])]
      rfl
    | false =>
      have hScript : script (s :: rest) = s.cmds ++ script rest := by
        rw [script, List.takeWhile_cons_of_pos (by simp [hDenied]), List.flatMap_cons, script]
      have hRun : run eff c s (fun _ => true) = c.execAll eff s.cmds (fun _ => true) := by
        rw [run, if_neg (by simp [hDenied])]
      rw [hScript, execAll_append]
      cases hExec : c.execAll eff s.cmds (fun _ => true) with
      | mk c' done =>
        rw [hExec] at hRun
        cases done with
        | false => rw [batchLoop_failed hRun]
        | true =>
          rw [batchLoop_done hRun]
          exact ih (i + 1) c'

theorem exec_rollback_committed (eff : ε → D → D) (c : Conn D) (ok : Bool) :
    (c.exec eff .rollback ok).1.committed = c.committed := by
  obtain ⟨committed, work, tx⟩ := c
  cases ok <;> cases tx <;> rfl

/-! ## Exactly when a batch is all or nothing -/

theorem exec_begin_idle (eff : ε → D → D) (d : D) (ok : Bool) :
    (Conn.idle d).exec eff .begin ok = if ok then (begun d, true) else (Conn.idle d, false) := by
  cases ok <;> rfl

theorem grown_begun : Grown (begun ([] : List ε)) where
  work := List.prefix_rfl
  saves := by
    rintro tx ⟨⟩ s hs
    cases hs
  auto := nofun

theorem exec_commit (eff : ε → D → D) (c : Conn D) (ok : Bool) :
    c.exec eff .commit ok = (c, false) ∨ c.exec eff .commit ok = (Conn.idle c.work, true) := by
  obtain ⟨committed, work, tx⟩ := c
  cases ok <;> cases tx <;> simp [Conn.exec, Conn.apply]

theorem batch_cases (eff : ε → D → D) (ok : Outcomes) (d : D) (stmts : List (Statement ε)) :
    batch eff ok (Conn.idle d) stmts = (Conn.idle d, .error .begin) ∨
      (∃ c i, batchLoop eff ok.statement 0 (begun d) stmts = (c, .error i) ∧
        batch eff ok (Conn.idle d) stmts = ((c.exec eff .rollback ok.rollback).1, .error (.statement i))) ∨
      ∃ c n, batchLoop eff ok.statement 0 (begun d) stmts = (c, .ok n) ∧
        (batch eff ok (Conn.idle d) stmts = (c, .error .commit) ∨
          batch eff ok (Conn.idle d) stmts = (Conn.idle c.work, .ok n)) := by
  unfold batch
  rw [exec_begin_idle]
  cases ok.begin with
  | false => exact .inl rfl
  | true =>
    rw [if_pos rfl]
    dsimp only
    rcases hLoop : batchLoop eff ok.statement 0 (begun d) stmts with ⟨c, i | n⟩
    · exact .inr (.inl ⟨c, i, rfl, rfl⟩)
    · refine .inr (.inr ⟨c, n, rfl, ?_⟩)
      dsimp only
      rcases exec_commit eff c ok.commit with hExec | hExec
      · rw [hExec]
        exact .inl rfl
      · rw [hExec]
        exact .inr rfl

theorem committed_of_durable_nil {stmts : List (Statement ε)} (hDurable : durable stmts = [])
    (eff : ε → D → D) (ok : Nat → Nat → Bool) (d : D) :
    (batchLoop eff ok 0 (begun d) stmts).1.committed = d := by
  have hPrefix := batchLoop_committed_prefix grown_begun ok 0 stmts
  rw [durable, ← batchLoop_script record 0] at hDurable
  rw [hDurable, List.prefix_nil] at hPrefix
  have hMap := batchLoop_map eff ok d 0 (begun []) stmts
  rw [show (begun []).map (replay eff d) = begun d from rfl] at hMap
  rw [hMap]
  change replay eff d _ = d
  rw [hPrefix]
  rfl

/-- A list of statements is all or nothing, on every database and whatever fails,
exactly when its own text commits no change before the closing COMMIT. -/
theorem batch_atomic_iff {ε : Type} (stmts : List (Statement ε)) :
    (∀ (D : Type) (eff : ε → D → D) (ok : Outcomes) (d : D), Atomic eff ok d stmts) ↔
      durable stmts = [] := by
  constructor
  · intro hAtomic
    -- Let the closing COMMIT fail, over the database that records the changes.
    have hFree := hAtomic (List ε) record ⟨true, fun _ _ => true, true, false⟩ []
    unfold Atomic batch at hFree
    rw [exec_begin_idle, if_pos rfl] at hFree
    dsimp only at hFree
    rw [durable, ← batchLoop_script record 0]
    rcases hLoop : batchLoop record (fun _ _ => true) 0 (begun []) stmts with ⟨c, i | n⟩
    · rw [hLoop] at hFree
      exact (exec_rollback_committed record c true).symm.trans hFree
    · rw [hLoop] at hFree
      exact hFree
  · intro hDurable D eff ok d
    have hCommitted := committed_of_durable_nil hDurable eff ok.statement d
    unfold Atomic
    rcases batch_cases eff ok d stmts with hBatch | ⟨c, i, hLoop, hBatch⟩ | ⟨c, n, hLoop, hBatch⟩
    · rw [hBatch]
      rfl
    · rw [hLoop] at hCommitted
      rw [hBatch]
      exact (exec_rollback_committed eff c ok.rollback).trans hCommitted
    · rw [hLoop] at hCommitted
      obtain ⟨hCount, hFree⟩ := batchLoop_of_ok hLoop
      rcases hBatch with hBatch | hBatch
      · rw [hBatch]
        exact hCommitted
      · rw [hBatch]
        refine ⟨by omega, ?_⟩
        rw [meaning, ← batchLoop_script eff 0, hFree]
        rfl

/-- The second statement ends the wrapper's transaction, the closing COMMIT finds none
to commit, and the row stays. -/
theorem commit_inside_batch_not_atomic :
    ¬ Atomic (fun (row : Nat) rows => rows ++ [row]) ⟨true, fun _ _ => true, true, true⟩ []
      [⟨"INSERT INTO t VALUES (1)", [.change 1], false⟩, ⟨"COMMIT", [.commit], false⟩] := by
  have hBatch : batch (fun (row : Nat) rows => rows ++ [row]) ⟨true, fun _ _ => true, true, true⟩ (Conn.idle [])
      [⟨"INSERT INTO t VALUES (1)", [.change 1], false⟩, ⟨"COMMIT", [.commit], false⟩] =
        (Conn.idle [1], .error .commit) := by
    decide +kernel
  rw [Atomic, hBatch]
  decide

end QuicSql.Engine
