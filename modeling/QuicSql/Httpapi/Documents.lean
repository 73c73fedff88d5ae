import QuicSql.Client.Result
import QuicSql.Httpapi.Stream
import QuicSql.Session.System

/-!
# Requests as documents

The native endpoint refuses a member it does not know, the pipeline reads past it. Both decode
the arguments of a statement before the engine sees it, and answer with a status and a document.
-/

namespace QuicSql.Documents

open Wire Hrana
open Httpapi (toResultJSON apiErrorNode errorEnvelope hColNode hStmtResultNode executeResp okStream hErrorNode errorStream
  pipelineResp)

structure Reply (D : Type) where
  status : Nat
  body : D

/-- How many bytes a body has, the server's cap on those of a request, and the client's on those
of a reply, if there is one. At the largest int64 the server's limit would wrap. -/
structure BodyCaps (D : Type) where
  size : D → Nat
  maxBody : Nat
  maxResponse : Option Nat
  maxBody_lt : maxBody < 9223372036854775807

-- `detail` is what a body says of a document that is not decoded.
variable {F σ κ : Type} (json : EnvelopeCodec) (b64 : Base64) (fl : FloatCodec F) (detail : DecodeErr → String)
  (caps : BodyCaps json.Doc)

def writeErr (status : Nat) (msg : String) : Reply json.Doc := ⟨status, json.encode (errorEnvelope json ⟨msg, 0, 0⟩)⟩

def bodyTooLarge : Reply json.Doc := writeErr json 413 "request body exceeds the maximum allowed size"

/-! ## The native endpoint -/

/-- The members of a document that is decoded with `DisallowUnknownFields`. -/
def knownFields (known : List String) : Json → Except DecodeErr (String → Option Json)
  | .obj members => if members.all fun m => m.1 ∈ known then fields (.obj members) else .error .json
  | j => fields j

structure StatementJSON where
  sql : String
  args : List Json

structure QueryRequest where
  sql : String
  args : List Json
  statements : List StatementJSON

def statementJSON (j : Json) : Except DecodeErr StatementJSON := do
  let member ← knownFields ["sql", "args"] j
  let sql ← stringMember (member "sql")
  let args ← listMember .ok (member "args")
  return ⟨sql, args⟩

def queryRequest (j : Json) : Except DecodeErr QueryRequest := do
  let member ← knownFields ["sql", "args", "statements"] j
  let sql ← stringMember (member "sql")
  let args ← listMember .ok (member "args")
  let statements ← listMember statementJSON (member "statements")
  return ⟨sql, args, statements⟩

/-- The arguments from number `i` on; an argument that is refused is named by its number. -/
def decodeNativeArgs : Nat → List Json → Except String (List (Value F))
  | _, [] => .ok []
  | i, raw :: rest =>
    match fromNativeAny b64 fl raw with
    | .error err => .error (s!"arg {i}: " ++ detail err)
    | .ok v => (decodeNativeArgs (i + 1) rest).map (v :: ·)

def decodeStatements : List StatementJSON → Except String (List (Statement F))
  | [] => .ok []
  | s :: rest =>
    if s.sql = "" then .error "batch statement missing 'sql'"
    else
      match decodeNativeArgs b64 fl detail 0 s.args with
      | .error msg => .error msg
      | .ok args => (decodeStatements rest).map (⟨s.sql, args, [], false⟩ :: ·)

def isNotAuthorized : RunError → Bool
  | .sqlite e => e.code = 23
  | _ => false

def writeRunError (err : RunError) : Reply json.Doc :=
  match err with
  | .denied msg => writeErr json 403 msg
  | .timedOut => writeErr json 504 "statement timed out"
  | err =>
    if isNotAuthorized err then writeErr json 403 "forbidden: read-only (write not permitted)"
    else ⟨200, json.encode (errorEnvelope json (toAPIError err))⟩

def batchError (index : Option Nat) (err : RunError) : Reply json.Doc :=
  match err with
  | .denied msg => writeErr json 403 msg
  | .timedOut => writeErr json 504 "statement timed out"
  | err =>
    if isNotAuthorized err then writeErr json 403 "forbidden: read-only (write not permitted)"
    else ⟨200, json.encode (.obj ([("error", apiErrorNode json (toAPIError err))] ++
      index.toList.map fun i => ("failed_index", .int i)))⟩

/-- The engine on the handle, or on the connection that was borrowed for a reader. A batch that
fails may name a statement. -/
structure Executor (F σ : Type) where
  run : σ → Statement F → σ × Except RunError (Result F)
  batch : σ → List (Statement F) → σ × Except (Option Nat × RunError) (List (Result F))

/-- `handleQuery` once the request is admitted. -/
def handleQuery (e : Executor F σ) (s : σ) (body : json.Doc) : σ × Reply json.Doc :=
  if caps.maxBody < caps.size body then (s, bodyTooLarge json)
  else
    match json.unmarshal queryRequest body with
    | .error err => (s, writeErr json 400 ("invalid JSON: " ++ detail err))
    | .ok req =>
      if req.sql = "" ∧ req.statements = [] then (s, writeErr json 400 "request must set 'sql' or 'statements'")
      else if req.sql ≠ "" ∧ req.statements ≠ [] then
        (s, writeErr json 400 "set either 'sql' or 'statements', not both")
      else if req.statements ≠ [] then
        match decodeStatements b64 fl detail req.statements with
        | .error msg => (s, writeErr json 400 msg)
        | .ok stmts =>
          match e.batch s stmts with
          | (s', .error (index, err)) => (s', batchError json index err)
          | (s', .ok results) =>
            (s', ⟨200, json.encode (.obj [("results", .arr (results.map fun r => (toResultJSON r).node json b64 fl))])⟩)
      else
        match decodeNativeArgs b64 fl detail 0 req.args with
        | .error msg => (s, writeErr json 400 msg)
        | .ok args =>
          match e.run s ⟨req.sql, args, [], false⟩ with
          | (s', .error err) => (s', writeRunError json err)
          | (s', .ok res) => (s', ⟨200, json.encode ((toResultJSON res).node json b64 fl)⟩)

/-! ## The pipeline -/

def int32Item (j : Json) : Except DecodeErr Int := do
  let i ← intMember (some j)
  if -2 ^ 31 ≤ i.toInt ∧ i.toInt < 2 ^ 31 then .ok i.toInt else .error .json

def boolItem (j : Json) : Except DecodeErr Bool := boolMember (some j)

def hranaValue (j : Json) : Except DecodeErr (Value F) := (hranaRaw j).bind (fromHranaRaw b64 fl)

def hNamedArg (j : Json) : Except DecodeErr (String × Value F) := do
  let member ← fields j
  let name ← stringMember (member "name")
  let value ← hranaValue b64 fl ((member "value").getD .null)
  return (name, value)

def hStmt (j : Json) : Except DecodeErr (HStmt F) := do
  let member ← fields j
  let sql ← pointerMember stringItem (member "sql")
  let sqlId ← pointerMember int32Item (member "sql_id")
  let args ← listMember (hranaValue b64 fl) (member "args")
  let namedArgs ← listMember (hNamedArg b64 fl) (member "named_args")
  let wantRows ← pointerMember boolItem (member "want_rows")
  return ⟨sql, sqlId, args, namedArgs, wantRows⟩

/-- The condition that a decoded `hBatchCond` stands for. -/
def condOf (type : String) (step : Option Int) (cond : Option HBatchCond) (conds : List HBatchCond) : HBatchCond :=
  if type = "ok" then .ok step
  else if type = "error" then .error step
  else if type = "not" then .not cond
  else if type = "and" then .and conds
  else if type = "or" then .or conds
  else if type = "is_autocommit" then .isAutocommit
  else .unknown type

/-- `encoding/json` reads no document that is nested deeper than this. -/
def maxNestingDepth : Nat := 10000

def hBatchCond : Nat → Json → Except DecodeErr HBatchCond
  | 0, _ => .error .json
  | depth + 1, j => do
    let member ← fields j
    let type ← stringMember (member "type")
    let step ← pointerMember int32Item (member "step")
    let cond ← pointerMember (hBatchCond depth) (member "cond")
    let conds ← listMember (hBatchCond depth) (member "conds")
    return condOf type step cond conds

def hBatchStep (j : Json) : Except DecodeErr (HBatchStep F) := do
  let member ← fields j
  let condition ← pointerMember (hBatchCond maxNestingDepth) (member "condition")
  let stmt ← hStmt b64 fl ((member "stmt").getD .null)
  return ⟨condition, stmt⟩

def hBatch (j : Json) : Except DecodeErr (HBatch F) := do
  let member ← fields j
  let steps ← listMember (hBatchStep b64 fl) (member "steps")
  if h : steps.length ≤ 2 ^ 32 then .ok ⟨steps, h⟩ else .error .json

def streamRequest (j : Json) : Except DecodeErr (StreamRequest F) := do
  let member ← fields j
  let type ← stringMember (member "type")
  let stmt ← pointerMember (hStmt b64 fl) (member "stmt")
  let batch ← pointerMember (hBatch b64 fl) (member "batch")
  let sql ← pointerMember stringItem (member "sql")
  let sqlId ← pointerMember int32Item (member "sql_id")
  let tables ← listMember stringItem (member "tables")
  return ⟨type, stmt, batch, sql, sqlId, tables⟩

structure PipelineReq (F : Type) where
  baton : Option String
  requests : List (StreamRequest F)

def pipelineReq (j : Json) : Except DecodeErr (PipelineReq F) := do
  let member ← fields j
  let baton ← pointerMember stringItem (member "baton")
  let requests ← listMember (streamRequest b64 fl) (member "requests")
  return ⟨baton, requests⟩

def simpleResp (type : String) : Node json.Doc := .obj [("type", .str type)]

def orNull {α : Type} (node : α → Node json.Doc) : Option α → Node json.Doc
  | none => .null
  | some a => node a

def hBatchResultNode (r : HBatchResult F) : Node json.Doc :=
  .obj [("step_results", .arr (r.stepResults.map (orNull json (hStmtResultNode json b64 fl)))),
    ("step_errors", .arr (r.stepErrors.map (orNull json (hErrorNode json))))]

def hDescribeResultNode (r : HDescribeResult) : Node json.Doc :=
  .obj [("params", .arr (r.params.map fun name => .obj [("name", .stringOrNull name)])),
    ("cols", .arr (r.cols.map (hColNode json))), ("is_explain", .bool r.isExplain), ("is_readonly", .bool r.isReadonly)]

def responseNode : Response F → Node json.Doc
  | .execute r => executeResp json b64 fl r
  | .batch r => .obj [("type", .str "batch"), ("result", hBatchResultNode json b64 fl r)]
  | .sequence => simpleResp json "sequence"
  | .describe r => .obj [("type", .str "describe"), ("result", hDescribeResultNode json r)]
  | .storeSql => simpleResp json "store_sql"
  | .closeSql => simpleResp json "close_sql"
  | .getAutocommit b => .obj [("type", .str "get_autocommit"), ("is_autocommit", .bool b)]
  | .sessionStart => simpleResp json "session_start"
  | .sessionChangeset cs =>
    .obj [("type", .str "session_changeset"), ("changeset", .str (b64.encodeToString cs))]
  | .close => simpleResp json "close"

def streamResultNode : StreamResult F → Node json.Doc
  | .error e => errorStream json e
  | .ok r => okStream json (responseNode json b64 fl r)

/-! ## Sessions -/

/-- The session store with what each of its sessions keeps. -/
structure Server (σ κ : Type) where
  store : Sessions.Store
  streams : Sessions.Ptr → Hrana.Stream σ κ

inductive GetError where
  | unknownDB
  | unavailable
  | timedOut
  | other
deriving DecidableEq, Repr

def writeGetError : GetError → Reply json.Doc
  | .unknownDB => writeErr json 404 "unknown database"
  | .unavailable => writeErr json 503 "database temporarily unavailable"
  | .timedOut => writeErr json 504 "request timed out"
  | .other => writeErr json 500 "internal error"

def writeStreamError : Sessions.Err ⊕ GetError → Reply json.Doc
  | .inl .badBaton => writeErr json 400 "invalid or expired baton"
  | .inl .principalMismatch => writeErr json 403 "baton belongs to a different principal"
  | .inl .tooMany => writeErr json 503 "too many open sessions"
  | .inl _ => writeGetError json .other
  | .inr err => writeGetError json err

/-- What a new session meets: the registry reference, and the connection that is pinned in its
mode, with its state and the id of the session. -/
structure Draw (σ : Type) where
  ref : Except GetError Sessions.Ref
  conn : Except GetError (Sessions.ConnId × σ × Sessions.SessionId)

variable (codec : Sessions.Codec) (caller : Sessions.Open) (draw : Draw σ)

def openSession (srv : Server σ κ) : Server σ κ × Except (Sessions.Err ⊕ GetError) Sessions.Ptr :=
  match draw.ref with
  | .error err => (srv, .error (.inr err))
  | .ok ref =>
    match srv.store.reserveSlot caller.db with
    | .error err => (srv, .error (.inl err))
    | .ok store =>
      match draw.conn with
      | .error err => ({ srv with store := store.releaseSlot caller.db }, .error (.inr err))
      | .ok (conn, state, id) =>
        ({ store := store.insertSession (caller.session ref conn id store.now)
           streams := Function.update srv.streams store.nextPtr ⟨state, ∅, none, caller.attach⟩ },
          .ok store.nextPtr)

/-- A baton that is absent or empty opens a session. -/
def stream (srv : Server σ κ) (baton : Option String) : Server σ κ × Except (Sessions.Err ⊕ GetError) Sessions.Ptr :=
  match baton with
  | none => openSession caller draw srv
  | some baton =>
    if baton = "" then openSession caller draw srv
    else
      match srv.store.resume codec baton caller.db caller.principal with
      | (store, .error err) => ({ srv with store := store }, .error (.inl err))
      | (store, .ok p) => ({ srv with store := store }, .ok p)

/-- `handlePipeline` once the request is admitted; nothing if it panics, with the session closed
by the deferred call. -/
def handlePipeline (c : PinnedConn F σ κ) (srv : Server σ κ) (body : json.Doc) : Server σ κ × Option (Reply json.Doc) :=
  if caps.maxBody < caps.size body then (srv, some (bodyTooLarge json))
  else
    match json.unmarshal (pipelineReq b64 fl) body with
    | .error err => (srv, some (writeErr json 400 ("invalid JSON: " ++ detail err)))
    | .ok req =>
      match stream codec caller draw srv req.baton with
      | (srv', .error err) => (srv', some (writeStreamError json err))
      | (srv', .ok p) =>
        match serve c (srv'.streams p) false req.requests with
        | none => ({ srv' with store := srv'.store.close p }, none)
        | some (s, true, results) =>
          ({ store := srv'.store.close p, streams := Function.update srv'.streams p s },
            some ⟨200, json.encode (pipelineResp json none (results.map (streamResultNode json b64 fl)))⟩)
        | some (s, false, results) =>
          ({ store := (srv'.store.baton codec p).1, streams := Function.update srv'.streams p s },
            some ⟨200, json.encode (pipelineResp json (some (srv'.store.baton codec p).2)
              (results.map (streamResultNode json b64 fl)))⟩)

/-! ## The status of a body that is too large -/

variable {json b64 fl detail caps codec caller draw}

theorem writeRunError_status (err : RunError) : (writeRunError json err).status ≠ 413 := by
  unfold writeRunError
  repeat' split
  all_goals exact of_decide_eq_true rfl

theorem batchError_status (index : Option Nat) (err : RunError) : (batchError json index err).status ≠ 413 := by
  unfold batchError
  repeat' split
  all_goals exact of_decide_eq_true rfl

theorem writeStreamError_status (err : Sessions.Err ⊕ GetError) : (writeStreamError json err).status ≠ 413 := by
  rcases err with err | err <;> cases err <;> exact of_decide_eq_true rfl

theorem handleQuery_status (e : Executor F σ) (s : σ) {body : json.Doc} (h : ¬ caps.maxBody < caps.size body) :
    (handleQuery json b64 fl detail caps e s body).2.status ≠ 413 := by
  unfold handleQuery
  rw [if_neg h]
  repeat' split
  all_goals first
    | exact of_decide_eq_true rfl
    | exact batchError_status _ _
    | exact writeRunError_status _

theorem handlePipeline_status (c : PinnedConn F σ κ) (srv : Server σ κ) {body : json.Doc}
    (h : ¬ caps.maxBody < caps.size body) {reply : Reply json.Doc}
    (hReply : (handlePipeline json b64 fl detail caps codec caller draw c srv body).2 = some reply) :
    reply.status ≠ 413 := by
  unfold handlePipeline at hReply
  rw [if_neg h] at hReply
  repeat' split at hReply
  all_goals cases hReply
  all_goals first
    | exact of_decide_eq_true rfl
    | exact writeStreamError_status _

end QuicSql.Documents
