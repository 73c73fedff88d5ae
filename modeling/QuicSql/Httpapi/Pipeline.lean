import Mathlib.Data.Finmap
import QuicSql.Engine.Batch

/-!
# The stream pipeline

One pipeline request runs a list of stream requests on a session's pinned
connection, one after another and whatever became of the ones before.
-/

namespace QuicSql.Httpapi

open Lib.Txn Engine

universe u v

variable {ε : Type u} {D : Type v}

structure Stream (ε : Type u) (D : Type v) where
  conn : Conn D
  sqls : Finmap (fun _ : Int => Statement ε)
  allowAttach : Bool

structure HStmt (ε : Type u) where
  sql : Option (Statement ε)
  sqlId : Option Int

inductive StreamRequest (ε : Type u) where
  | execute (stmt : Option (HStmt ε))
  | sequence (stmt : HStmt ε)
  | storeSql (sqlId : Option Int) (sql : Option (Statement ε))
  | closeSql (sqlId : Option Int)
  | getAutocommit
  | close
  | unknown (kind : String)

inductive HError where
  | message (text : String)
  | statement
deriving DecidableEq, Repr

inductive Response where
  | execute
  | sequence
  | storeSql
  | closeSql
  | getAutocommit (isAutocommit : Bool)
  | close
deriving DecidableEq, Repr

abbrev StreamResult := Except HError Response

def resolveSql (s : Stream ε D) : Option (Statement ε) → Option Int → Except HError (Statement ε)
  | some sql, _ => .ok sql
  | none, some id =>
    match s.sqls.lookup id with
    | some sql => .ok sql
    | none => .error (.message "unknown sql_id")
  | none, none => .error (.message "request has neither sql nor sql_id")

def execStmt (eff : ε → D → D) (s : Stream ε D) (st : HStmt ε) (ok : Nat → Bool) :
    Stream ε D × Except HError Unit :=
  match resolveSql s st.sql st.sqlId with
  | .error e => (s, .error e)
  | .ok sql =>
    match run eff s.conn { sql with allowAttach := s.allowAttach } ok with
    | (conn, true) => ({ s with conn := conn }, .ok ())
    | (conn, false) => ({ s with conn := conn }, .error .statement)

def runStreamRequest (eff : ε → D → D) (s : Stream ε D) (ok : Nat → Bool) :
    StreamRequest ε → Stream ε D × StreamResult × Bool
  | .execute none => (s, .error (.message "execute requires a stmt"), false)
  | .execute (some st) =>
    match execStmt eff s st ok with
    | (s', .error e) => (s', .error e, false)
    | (s', .ok ()) => (s', .ok .execute, false)
  | .sequence st =>
    match resolveSql s st.sql st.sqlId with
    | .error e => (s, .error e, false)
    | .ok sql =>
      -- A sequence goes to the connection directly, without the check of its first keyword.
      match s.conn.execAll eff sql.cmds ok with
      | (conn, true) => ({ s with conn := conn }, .ok .sequence, false)
      | (conn, false) => ({ s with conn := conn }, .error .statement, false)
  | .storeSql (some id) (some sql) =>
    match s.sqls.lookup id with
    | some _ => (s, .error (.message "sql_id already in use"), false)
    | none => ({ s with sqls := s.sqls.insert id sql }, .ok .storeSql, false)
  | .storeSql _ _ => (s, .error (.message "store_sql requires sql_id and sql"), false)
  | .closeSql (some id) => ({ s with sqls := s.sqls.erase id }, .ok .closeSql, false)
  | .closeSql none => (s, .ok .closeSql, false)
  | .getAutocommit => (s, .ok (.getAutocommit s.conn.tx.isNone), false)
  | .close => (s, .ok .close, true)
  | .unknown kind => (s, .error (.message ("unknown request type: " ++ kind)), false)

/-- The request loop; once the stream is closed, the requests left are answered with an
error. `ok i` are the outcomes of request `i`. -/
def serve (eff : ε → D → D) (ok : Nat → Nat → Bool) :
    Nat → Stream ε D → Bool → List (StreamRequest ε) → Stream ε D × Bool × List StreamResult
  | _, s, closed, [] => (s, closed, [])
  | i, s, true, _ :: rest =>
    match serve eff ok (i + 1) s true rest with
    | (s', closed, results) => (s', closed, .error (.message "stream is closed") :: results)
  | i, s, false, req :: rest =>
    match runStreamRequest eff s (ok i) req with
    | (s', res, closeStream) =>
      match serve eff ok (i + 1) s' closeStream rest with
      | (s'', closed, results) => (s'', closed, res :: results)

/-- The connection afterwards, whether the stream goes on (a baton is returned), and the
results. Closing the session rolls back what is open. -/
def handlePipeline (eff : ε → D → D) (ok : Nat → Nat → Bool) (rollback : Bool) (s : Stream ε D)
    (requests : List (StreamRequest ε)) : Conn D × Bool × List StreamResult :=
  match serve eff ok 0 s false requests with
  | (s', true, results) => ((s'.conn.exec eff .rollback rollback).1, false, results)
  | (s', false, results) => (s'.conn, true, results)

/-- Every request is answered, failed and refused ones too. -/
theorem serve_length (eff : ε → D → D) (ok : Nat → Nat → Bool) (i : Nat) (s : Stream ε D) (closed : Bool)
    (requests : List (StreamRequest ε)) : (serve eff ok i s closed requests).2.2.length = requests.length := by
  induction requests generalizing i s closed with
  | nil => cases closed <;> rfl
  | cons req rest ih =>
    cases closed with
    | true => exact congrArg (· + 1) (ih (i + 1) s true)
    | false => exact congrArg (· + 1) (ih (i + 1) _ _)

theorem handlePipeline_length (eff : ε → D → D) (ok : Nat → Nat → Bool) (rollback : Bool) (s : Stream ε D)
    (requests : List (StreamRequest ε)) :
    (handlePipeline eff ok rollback s requests).2.2.length = requests.length := by
  have hLength := serve_length eff ok 0 s false requests
  unfold handlePipeline
  split
  all_goals
    rename_i hServe
    rwa [hServe] at hLength

end QuicSql.Httpapi
