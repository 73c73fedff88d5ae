import QuicSql.Client.Serve
import QuicSql.Httpapi.Documents

/-!
# A statement and its arguments on the two endpoints

The client normalises every argument before it writes it, bare for the native endpoint and
tagged for a stream. The server decodes either form and hands one statement to the engine. A
list of statements is sent in one pipeline, or statement by statement over a stream.
-/

namespace QuicSql.Exchange

open Wire Documents Lib
open Httpapi (toResultJSON hErrorNode pipelineResp)
open Client (Result Failure decodeHValue wireError doResult HpResult HpResp hpError hpResult hpResp streamFailure
  resultFromExecute shown nativeCell nativeCell_spec hranaCell hranaCell_spec stringOrNull value_stringOrNull
  pointerMember_stringOrNull okStream_value okResult resultFromExecute_okResult)

variable {F σ κ : Type}

/-! ## Arguments -/

/-- What is bound: `int` stands for the signed types and for the unsigned ones below 64 bits,
`uint` for those with 64 bits, a time is its RFC 3339 text, a number is a literal that was
decoded, and anything else is printed. -/
inductive GoArg (F : Type) where
  | nil
  | bool (b : Bool)
  | int (i : Int64)
  | uint (u : UInt64)
  | float (f : F)
  | string (s : String)
  | bytes (b : List UInt8)
  | time (text : String)
  | number (lit : { d : Decimal // d.WellFormed })
  | other (text : String)

/-- An unsigned integer that does not fit is its decimal text. -/
def uintValue (u : UInt64) : Value F :=
  if u.toNat ≤ 2 ^ 63 - 1 then .int (Int64.ofNat u.toNat) else .text (String.ofList (Decimal.ofInt u.toNat).text)

variable (json : EnvelopeCodec) (b64 : Base64) (fl : FloatCodec F)

def fromGo : GoArg F → Value F
  | .nil => .null
  | .bool b => .int (if b then 1 else 0)
  | .int i => .int i
  | .uint u => uintValue u
  | .float f => .float f
  | .string s => .text s
  | .bytes b => .blob b
  | .time text => .text text
  | .number lit => numberValue fl lit.val.text
  | .other text => .text text

def bound (a : GoArg F) : Value F := delivered fl (fromGo fl a)

/-! ## Requests -/

/-- The member is left out if there is no argument. -/
def argsMember (cell : Value F → json.Doc) (args : List (GoArg F)) : List (String × Node json.Doc) :=
  if args.length > 0 then [("args", .arr (args.map fun a => .doc (cell (fromGo fl a))))] else []

def encodeRequest (sql : String) (args : List (GoArg F)) : Node json.Doc :=
  .obj (argsMember json fl (nativeMarshalJSON json.toJsonCodec b64 fl) args ++ [("sql", .str sql)])

structure Statement (F : Type) where
  sql : String
  args : List (GoArg F)

def executeRequest (s : Statement F) : Node json.Doc :=
  .obj [("stmt", .obj (argsMember json fl (hranaMarshalJSON json.toJsonCodec b64 fl) s.args ++
      [("sql", .str s.sql), ("want_rows", .bool true)])), ("type", .str "execute")]

def closeRequest : Node json.Doc := .obj [("type", .str "close")]

def pipelineBody (baton : Option String) (requests : List (Node json.Doc)) : Node json.Doc :=
  .obj [("baton", .stringOrNull baton), ("requests", .arr requests)]

/-! ## Replies -/

inductive CallError where
  | status (code : Nat) (message : Option String)
  | tooLarge (cap : Nat)
  | failed (err : Failure)
  | lost
  | streamClosed
deriving DecidableEq, Repr

/-- The message of an error envelope; nothing stands for the beginning of another body. -/
def firstMessage (body : json.Doc) : Option String :=
  match json.unmarshal (fun j => (fields j).bind fun member => pointerMember wireError (member "error")) body with
  | .ok (some e) => some e.message
  | _ => none

variable (caps : BodyCaps json.Doc)

def readBody (body : json.Doc) : Except CallError json.Doc :=
  match caps.maxResponse with
  | none => .ok body
  | some cap => if cap < caps.size body then .error (.tooLarge cap) else .ok body

/-- The body of a reply is read whatever its status. -/
def readReply {α : Type} (read : json.Doc → Except Failure α) (reply : Reply json.Doc) : Except CallError α :=
  (readBody json caps reply.body).bind fun body =>
    if reply.status ≠ 200 then .error (.status reply.status (firstMessage json body)) else (read body).mapError .failed

/-- `Client.do` from the reply on. -/
def readQuery (reply : Reply json.Doc) : Except CallError (Result F) := readReply json caps (doResult json b64 fl) reply

def decodePipeline (body : json.Doc) : Except Failure HpResp :=
  (json.unmarshal hpResp body).mapError (.decode "quicsql: decode pipeline response")

/-- `Client.pipeline` from the reply on; a handler that panics sends none. -/
def readPipeline : Option (Reply json.Doc) → Except CallError HpResp
  | none => .error .lost
  | some reply => readReply json caps (decodePipeline json) reply

/-- A cap was exceeded, the server's or the client's. -/
def CallError.capped : CallError → Bool
  | .status code _ => code = 413
  | .tooLarge _ => true
  | _ => false

def isCapped {α : Type} : Except CallError α → Bool
  | .error err => err.capped
  | .ok _ => false

section Caps

variable {json caps} {α : Type} {read : json.Doc → Except Failure α} {reply : Reply json.Doc}

theorem isCapped_failed (r : Except Failure α) : isCapped (r.mapError .failed) = false := by
  cases r <;> rfl

variable (caps read reply) in
theorem readReply_cases :
    (∃ cap, readReply json caps read reply = .error (.tooLarge cap)) ∨
      readReply json caps read reply = if reply.status ≠ 200 then .error (.status reply.status (firstMessage json reply.body))
        else (read reply.body).mapError .failed := by
  unfold readReply readBody
  split
  · exact .inr rfl
  · split
    · exact .inl ⟨_, rfl⟩
    · exact .inr rfl

theorem isCapped_readReply_bodyTooLarge : isCapped (readReply json caps read (bodyTooLarge json)) = true := by
  rcases readReply_cases caps read (bodyTooLarge json) with ⟨cap, hRead⟩ | hRead
  · rw [hRead]
    rfl
  · rw [hRead]
    rfl

theorem readReply_of_not_capped (h : isCapped (readReply json caps read reply) = false) (hStatus : reply.status = 200) :
    readReply json caps read reply = (read reply.body).mapError .failed := by
  rcases readReply_cases caps read reply with ⟨cap, hRead⟩ | hRead
  · rw [hRead] at h
    cases h
  · rw [hRead, if_neg (not_not_intro hStatus)]

theorem readReply_not_ok {a : α} (h : reply.status = 200 → read reply.body ≠ .ok a) : readReply json caps read reply ≠ .ok a := by
  intro hOk
  rcases readReply_cases caps read reply with ⟨cap, hRead⟩ | hRead
  · cases hRead.symm.trans hOk
  · rw [hRead] at hOk
    split at hOk
    · cases hOk
    · rename_i hStatus
      cases hResult : read reply.body with
      | error err =>
        rw [hResult] at hOk
        cases hOk
      | ok b =>
        rw [hResult] at hOk
        cases hOk
        exact h (not_not.mp hStatus) hResult

/-- Without a cap of the client only the server's status tells of one. -/
theorem not_capped_of_uncapped (hNone : caps.maxResponse = none) (hStatus : reply.status ≠ 413) :
    isCapped (readReply json caps read reply) = false := by
  unfold readReply readBody
  rw [hNone]
  change isCapped (if reply.status ≠ 200 then .error (.status reply.status _) else (read reply.body).mapError .failed) = false
  split
  · exact decide_eq_false hStatus
  · exact isCapped_failed _

end Caps

/-! ## Streams and batches -/

structure ClientStream where
  baton : Option String
  closed : Bool

def openStream : ClientStream := ⟨none, false⟩

variable {S : Type} (post : S → json.Doc → S × Option (Reply json.Doc))

def ClientStream.exec (srv : S) (cs : ClientStream) (s : Statement F) : S × ClientStream × Except CallError (Result F) :=
  if cs.closed then (srv, cs, .error .streamClosed)
  else
    match post srv (json.encode (pipelineBody json cs.baton [executeRequest json b64 fl s])) with
    | (srv', reply) =>
      match readPipeline json caps reply with
      | .error err => (srv', cs, .error err)
      | .ok resp =>
        (srv', { cs with baton := resp.baton },
          match resp.results with
          | [r] => (resultFromExecute b64 fl r).mapError .failed
          | results => .error (.failed (.resultCount results.length)))

/-- A stream that was never used has nothing to close. -/
def ClientStream.close (srv : S) (cs : ClientStream) : S × ClientStream × Except CallError Unit :=
  if cs.closed || cs.baton.isNone then (srv, { cs with closed := true }, .ok ())
  else
    match post srv (json.encode (pipelineBody json cs.baton [closeRequest json])) with
    | (srv', reply) => (srv', { cs with closed := true }, (readPipeline json caps reply).map fun _ => ())

/-- Statement by statement, whatever became of the ones before. -/
def ClientStream.execAll (srv : S) (cs : ClientStream) :
    List (Statement F) → S × ClientStream × List (Except CallError (Result F))
  | [] => (srv, cs, [])
  | s :: rest =>
    match cs.exec json b64 fl caps post srv s with
    | (srv', cs', r) =>
      match execAll srv' cs' rest with
      | (srv'', cs'', rs) => (srv'', cs'', r :: rs)

inductive BatchError where
  | call (err : CallError)
  | results (got want : Nat)
  | statement (index : Nat) (err : CallError)
deriving DecidableEq, Repr

def collect {ε α : Type} : Nat → List (Except ε α) → Except (Nat × ε) (List α)
  | _, [] => .ok []
  | i, .error err :: _ => .error (i, err)
  | i, .ok a :: rest => (collect (i + 1) rest).map (a :: ·)

def batchResult (outcomes : List (Except CallError (Result F))) : Except BatchError (List (Result F)) :=
  (collect 0 outcomes).mapError fun e => .statement e.1 e.2

def batch (srv : S) (stmts : List (Statement F)) : S × Except BatchError (List (Result F)) :=
  if stmts.length = 0 then (srv, .ok [])
  else
    match post srv (json.encode (pipelineBody json none (stmts.map (executeRequest json b64 fl) ++ [closeRequest json]))) with
    | (srv', reply) =>
      match readPipeline json caps reply with
      | .error err => (srv', .error (.call err))
      | .ok resp =>
        if resp.results.length < stmts.length then (srv', .error (.results resp.results.length stmts.length))
        else
          (srv', batchResult ((resp.results.take stmts.length).map fun r =>
            (resultFromExecute b64 fl r).mapError .failed))

section Caps

variable {json b64 fl caps post} {cs : ClientStream}

theorem isCapped_exec (hOpen : cs.closed = false) (srv : S) (s : Statement F) :
    isCapped (cs.exec json b64 fl caps post srv s).2.2 = isCapped (readPipeline json caps
      (post srv (json.encode (pipelineBody json cs.baton [executeRequest json b64 fl s]))).2) := by
  unfold ClientStream.exec
  rw [hOpen]
  simp only [Bool.false_eq_true, if_false]
  cases readPipeline json caps (post srv (json.encode (pipelineBody json cs.baton [executeRequest json b64 fl s]))).2 with
  | error err => rfl
  | ok resp =>
    dsimp only
    split
    · exact isCapped_failed _
    · rfl

end Caps

/-! ## What the server reads -/

def argsDocument (cell : Value F → Json) (args : List (GoArg F)) : List (String × Json) :=
  if args.length > 0 then [("args", .arr (args.map fun a => cell (fromGo fl a)))] else []

theorem memberValues_argsMember {cell : Value F → json.Doc} {parsed : Value F → Json}
    (hCell : ∀ v, json.decode (cell v) = some (parsed v)) (args : List (GoArg F)) {rest : List (String × Node json.Doc)}
    {js : List (String × Json)} (hRest : memberValues json.decode rest = some js) :
    memberValues json.decode (argsMember json fl cell args ++ rest) = some (argsDocument fl parsed args ++ js) := by
  unfold argsMember argsDocument
  split
  · refine memberValues_cons (Node.value_arr_map fun a _ => ?_) hRest
    rw [Node.value, hCell]
  · exact hRest

theorem lookup_argsDocument (cell : Value F → Json) (args : List (GoArg F)) (rest : List (String × Json)) {key : String}
    (hKey : key ≠ "args") : (argsDocument fl cell args ++ rest).lookup key = rest.lookup key := by
  unfold argsDocument
  split
  · have hNe : (key == "args") = false := by simpa using hKey
    rw [List.singleton_append, List.lookup_cons, hNe]
  · rfl

theorem listMember_argsDocument {α : Type} {read : Json → Except DecodeErr α} {cell : Value F → Json} {g : GoArg F → α}
    (hRead : ∀ a, read (cell (fromGo fl a)) = .ok (g a)) (args : List (GoArg F)) {rest : List (String × Json)}
    (hRest : rest.lookup "args" = none) :
    listMember read ((argsDocument fl cell args ++ rest).lookup "args") = .ok (args.map g) := by
  cases args with
  | nil =>
    rw [show argsDocument fl cell [] ++ rest = rest from rfl, hRest]
    rfl
  | cons a args =>
    have hLookup : (argsDocument fl cell (a :: args) ++ rest).lookup "args" =
        some (.arr ((a :: args).map fun a => cell (fromGo fl a))) := by
      simp [argsDocument]
    rw [hLookup]
    exact listMember_map fun a _ => hRead a

theorem argsMember_keys (cell : Value F → json.Doc) (args : List (GoArg F)) {rest : List (String × Node json.Doc)}
    (hRest : (rest.map Prod.fst).Nodup) (hArgs : "args" ∉ rest.map Prod.fst) :
    ((argsMember json fl cell args ++ rest).map Prod.fst).Nodup := by
  unfold argsMember
  split
  · exact List.nodup_cons.mpr ⟨hArgs, hRest⟩
  · exact hRest

/-! ### The native endpoint -/

def queryDocumentOf (s : Statement F) : Json :=
  .obj (argsDocument fl (nativeCell json b64 fl) s.args ++ [("sql", .str s.sql)])

theorem encodeRequest_value (s : Statement F) :
    (encodeRequest json b64 fl s.sql s.args).value json.decode = some (queryDocumentOf json b64 fl s) := by
  refine Node.value_obj (argsMember_keys json fl _ s.args (by simp) (by simp)) ?_
  exact memberValues_argsMember json fl (fun v => (nativeCell_spec json b64 fl v).1) s.args rfl

theorem queryRequest_document (s : Statement F) :
    queryRequest (queryDocumentOf json b64 fl s) =
      .ok ⟨s.sql, s.args.map fun a => nativeCell json b64 fl (fromGo fl a), []⟩ := by
  have hKnown : (argsDocument fl (nativeCell json b64 fl) s.args ++ [("sql", Json.str s.sql)]).all
      (fun m => m.1 ∈ ["sql", "args", "statements"]) = true := by
    unfold argsDocument
    split <;> simp
  have hArgs : listMember .ok ((argsDocument fl (nativeCell json b64 fl) s.args ++ [("sql", Json.str s.sql)]).lookup "args") =
      .ok (s.args.map fun a => nativeCell json b64 fl (fromGo fl a)) :=
    listMember_argsDocument fl (fun _ => rfl) s.args rfl
  simp only [queryRequest, queryDocumentOf, knownFields, hKnown, if_true, fields, bind, Except.bind, hArgs,
    lookup_argsDocument fl (nativeCell json b64 fl) s.args [("sql", Json.str s.sql)] (show "sql" ≠ "args" by decide),
    lookup_argsDocument fl (nativeCell json b64 fl) s.args [("sql", Json.str s.sql)] (show "statements" ≠ "args" by decide)]
  rfl

theorem decodeNativeArgs_cells (detail : DecodeErr → String) (i : Nat) (args : List (GoArg F)) :
    decodeNativeArgs b64 fl detail i (args.map fun a => nativeCell json b64 fl (fromGo fl a)) =
      .ok (args.map (bound fl)) := by
  induction args generalizing i with
  | nil => rfl
  | cons a args ih =>
    have hCell : fromNativeAny b64 fl (nativeCell json b64 fl (fromGo fl a)) = .ok (bound fl a) :=
      (nativeCell_spec json b64 fl (fromGo fl a)).2
    rw [List.map_cons, decodeNativeArgs, hCell]
    simp only [ih, Except.map, List.map_cons]

def statementOf (s : Statement F) : Hrana.Statement F := ⟨s.sql, s.args.map (bound fl), [], false⟩

theorem handleQuery_encodeRequest (detail : DecodeErr → String) (e : Executor F σ) (st : σ) {s : Statement F}
    (hSql : s.sql ≠ "") (hAdmits : ¬ caps.maxBody < caps.size (json.encode (encodeRequest json b64 fl s.sql s.args))) :
    handleQuery json b64 fl detail caps e st (json.encode (encodeRequest json b64 fl s.sql s.args)) =
      match e.run st (statementOf fl s) with
      | (st', .error err) => (st', writeRunError json err)
      | (st', .ok res) => (st', ⟨200, json.encode ((toResultJSON res).node json b64 fl)⟩) := by
  unfold handleQuery
  rw [if_neg hAdmits, json.unmarshal_encode queryRequest (encodeRequest_value json b64 fl s), queryRequest_document]
  simp only [hSql, false_and, if_false, ne_eq, not_true_eq_false, and_false, not_false_eq_true,
    decodeNativeArgs_cells]
  rfl

/-! ### The pipeline -/

def stmtDocument (s : Statement F) : Json :=
  .obj (argsDocument fl (hranaCell json b64 fl) s.args ++ [("sql", .str s.sql), ("want_rows", .bool true)])

def executeRequestDocument (s : Statement F) : Json :=
  .obj [("stmt", stmtDocument json b64 fl s), ("type", .str "execute")]

theorem executeRequest_value (s : Statement F) :
    (executeRequest json b64 fl s).value json.decode = some (executeRequestDocument json b64 fl s) := by
  refine Node.value_obj (by simp) (memberValues_cons ?_ rfl)
  refine Node.value_obj (argsMember_keys json fl _ s.args (by simp) (by simp)) ?_
  exact memberValues_argsMember json fl (fun v => (hranaCell_spec json b64 fl v).1) s.args rfl

theorem hranaValue_cell (v : Value F) : hranaValue b64 fl (hranaCell json b64 fl v) = .ok (delivered fl v) := by
  rw [← (hranaCell_spec json b64 fl v).2, hranaValue, decodeHValue]
  cases hranaRaw (hranaCell json b64 fl v) <;> rfl

def stmtOf (s : Statement F) : Hrana.HStmt F := ⟨some s.sql, none, s.args.map (bound fl), [], some true⟩

theorem hStmt_document (s : Statement F) : hStmt b64 fl (stmtDocument json b64 fl s) = .ok (stmtOf fl s) := by
  have hArgs : listMember (hranaValue b64 fl) ((argsDocument fl (hranaCell json b64 fl) s.args ++
      [("sql", Json.str s.sql), ("want_rows", Json.bool true)]).lookup "args") = .ok (s.args.map (bound fl)) :=
    listMember_argsDocument fl (fun a => hranaValue_cell json b64 fl (fromGo fl a)) s.args (by simp [List.lookup_cons])
  have hOther : ∀ key, key ≠ "args" → (argsDocument fl (hranaCell json b64 fl) s.args ++
      [("sql", Json.str s.sql), ("want_rows", Json.bool true)]).lookup key =
        [("sql", Json.str s.sql), ("want_rows", Json.bool true)].lookup key :=
    fun key hKey => lookup_argsDocument fl _ s.args _ hKey
  simp only [hStmt, stmtDocument, fields, bind, Except.bind, hArgs, hOther "sql" (by decide), hOther "sql_id" (by decide),
    hOther "named_args" (by decide), hOther "want_rows" (by decide)]
  rfl

/-- The requests that the client sends, as the server reads them. -/
def executeOf (s : Statement F) : Hrana.StreamRequest F := ⟨"execute", some (stmtOf fl s), none, none, none, []⟩

theorem streamRequest_execute (s : Statement F) :
    streamRequest b64 fl (executeRequestDocument json b64 fl s) = .ok (executeOf fl s) := by
  have hStmt : pointerMember (hStmt b64 fl) (some (stmtDocument json b64 fl s)) = .ok (some (stmtOf fl s)) := by
    rw [show pointerMember (hStmt b64 fl) (some (stmtDocument json b64 fl s)) =
      (hStmt b64 fl (stmtDocument json b64 fl s)).map some from rfl, hStmt_document]
    rfl
  have hRead : streamRequest b64 fl (executeRequestDocument json b64 fl s) =
      (pointerMember (Documents.hStmt b64 fl) (some (stmtDocument json b64 fl s))).bind fun stmt =>
        .ok ⟨"execute", stmt, none, none, none, []⟩ := rfl
  rw [hRead, hStmt]
  rfl

theorem pipelineReq_body {nodes : List (Node json.Doc)} (docs : List Json) {requests : List (Hrana.StreamRequest F)}
    (hValues : values json.decode nodes = some docs) (hRead : docs.mapM (streamRequest b64 fl) = .ok requests)
    (baton : Option String) :
    json.unmarshal (pipelineReq b64 fl) (json.encode (pipelineBody json baton nodes)) = .ok ⟨baton, requests⟩ := by
  have hValue : (pipelineBody json baton nodes).value json.decode =
      some (.obj [("baton", stringOrNull baton), ("requests", .arr docs)]) := by
    refine Node.value_obj (by simp) (memberValues_cons (value_stringOrNull json.decode baton) (memberValues_cons ?_ rfl))
    rw [Node.value, hValues]
    rfl
  rw [json.unmarshal_encode _ hValue]
  simp [pipelineReq, fields, List.lookup_cons, pointerMember_stringOrNull, listMember, hRead, bind, Except.bind, pure,
    Except.pure]

/-! ### Running the requests -/

variable (c : Hrana.PinnedConn F σ κ)

def runOn (allowAttach : Bool) (conn : σ) (s : Statement F) : σ × Except RunError (Hrana.Result F) :=
  c.run conn { statementOf fl s with allowAttach := allowAttach }

def runAllOn (allowAttach : Bool) : σ → List (Statement F) → σ × List (Except RunError (Hrana.Result F))
  | conn, [] => (conn, [])
  | conn, s :: rest =>
    match runOn fl c allowAttach conn s with
    | (conn', o) =>
      match runAllOn allowAttach conn' rest with
      | (conn'', os) => (conn'', o :: os)

def executeResult (o : Except RunError (Hrana.Result F)) : Hrana.StreamResult F :=
  Hrana.answer .execute (o.map fun res => Hrana.toHStmtResult res (some true))

theorem runStreamRequest_execute (st : Hrana.Stream σ κ) (s : Statement F) :
    Hrana.runStreamRequest c st (executeOf fl s) =
      some ({ st with conn := (runOn fl c st.allowsAttach st.conn s).1 },
        executeResult (runOn fl c st.allowsAttach st.conn s).2, false) := by
  have hExec : Hrana.execStmt (st.session c) st.conn (stmtOf fl s) =
      ((runOn fl c st.allowsAttach st.conn s).1,
        (runOn fl c st.allowsAttach st.conn s).2.map fun res => Hrana.toHStmtResult res (some true)) := by
    have hRun : (st.session c).run st.conn (Hrana.stmtFromHrana s.sql (stmtOf fl s) (st.session c).allowsAttach) =
        runOn fl c st.allowsAttach st.conn s := rfl
    unfold Hrana.execStmt
    simp only [stmtOf, Hrana.resolveSQL] at hRun ⊢
    rw [hRun]
    obtain ⟨conn, err | res⟩ := runOn fl c st.allowsAttach st.conn s <;> rfl
  have hStep : Hrana.runStreamRequest c st (executeOf fl s) =
      some ({ st with conn := (Hrana.execStmt (st.session c) st.conn (stmtOf fl s)).1 },
        Hrana.answer .execute (Hrana.execStmt (st.session c) st.conn (stmtOf fl s)).2, false) := rfl
  rw [hStep, hExec]
  rfl

theorem serve_executes (st : Hrana.Stream σ κ) (stmts : List (Statement F)) :
    Hrana.serve c st false (stmts.map (executeOf fl)) =
      some ({ st with conn := (runAllOn fl c st.allowsAttach st.conn stmts).1 }, false,
        (runAllOn fl c st.allowsAttach st.conn stmts).2.map executeResult) := by
  induction stmts generalizing st with
  | nil => rfl
  | cons s rest ih =>
    rw [List.map_cons, Hrana.serve, runStreamRequest_execute]
    dsimp only
    rw [ih]
    rfl

def hpOf : Except RunError (Hrana.Result F) → HpResult
  | .ok res => okResult json b64 fl (Hrana.toHStmtResult res (some true))
  | .error err => ⟨"error", none, some (hErrorFrom err)⟩

def seen : Except RunError (Hrana.Result F) → Except CallError (Result F)
  | .ok res => .ok (shown fl res)
  | .error err => .error (.failed (streamFailure (some (hErrorFrom err))))

theorem resultFromExecute_hpOf (o : Except RunError (Hrana.Result F)) :
    (resultFromExecute b64 fl (hpOf json b64 fl o)).mapError .failed = seen fl o := by
  cases o with
  | ok res =>
    rw [hpOf, resultFromExecute_okResult json b64 fl (by decide) res]
    rfl
  | error err => rfl

/-- A result is written as a document that the client reads as another. -/
def Reads (r : Hrana.StreamResult F) (hp : HpResult) : Prop :=
  ∃ j, (streamResultNode json b64 fl r).value json.decode = some j ∧ hpResult j = .ok hp

theorem reads_errorStream (e : Wire.HError) : Reads json b64 fl (.error e) ⟨"error", none, some e⟩ := by
  have hError : (hErrorNode json e).value json.decode =
      some (.obj [("message", .str e.message), ("code", stringOrNull e.code)]) :=
    Node.value_obj (by simp) (memberValues_cons rfl (memberValues_cons (value_stringOrNull json.decode e.code) rfl))
  refine ⟨_, Node.value_obj (by simp) (memberValues_cons rfl (memberValues_cons hError rfl)), ?_⟩
  have hMember : hpError (.obj [("message", .str e.message), ("code", stringOrNull e.code)]) = .ok e := by
    simp [hpError, fields, List.lookup_cons, stringMember, pointerMember_stringOrNull, bind, Except.bind, pure, Except.pure]
  simp [hpResult, fields, List.lookup_cons, List.lookup_nil, stringMember, pointerMember, hMember, bind, Except.bind,
    pure, Except.pure, Except.map]

theorem reads_executeResult (o : Except RunError (Hrana.Result F)) :
    Reads json b64 fl (executeResult o) (hpOf json b64 fl o) := by
  cases o with
  | ok res => exact ⟨_, okStream_value json b64 fl _, rfl⟩
  | error err => exact reads_errorStream json b64 fl (hErrorFrom err)

theorem decodePipeline_reply {results : List (Hrana.StreamResult F)} {hps : List HpResult}
    (hReads : List.Forall₂ (Reads json b64 fl) results hps) (baton : Option String) :
    decodePipeline json (json.encode (pipelineResp json baton (results.map (streamResultNode json b64 fl)))) =
      .ok ⟨baton, hps⟩ := by
  have hResults : ∃ docs, values json.decode (results.map (streamResultNode json b64 fl)) = some docs ∧
      docs.mapM hpResult = .ok hps := by
    induction hReads with
    | nil => exact ⟨[], rfl, rfl⟩
    | cons hHead _ ih =>
      obtain ⟨j, hValue, hRead⟩ := hHead
      obtain ⟨docs, hValues, hRest⟩ := ih
      refine ⟨j :: docs, ?_, ?_⟩
      · simp only [List.map_cons, values, hValue, hValues]
      · rw [List.mapM_cons, hRead, hRest]
        rfl
  obtain ⟨docs, hValues, hRead⟩ := hResults
  have hBody : (pipelineResp json baton (results.map (streamResultNode json b64 fl))).value json.decode =
      some (.obj [("baton", stringOrNull baton), ("base_url", .null), ("results", .arr docs)]) := by
    refine Node.value_obj (by simp) ?_
    refine memberValues_cons (value_stringOrNull json.decode baton) (memberValues_cons rfl (memberValues_cons ?_ rfl))
    rw [Node.value, hValues]
    rfl
  have hResp : hpResp (.obj [("baton", stringOrNull baton), ("base_url", .null), ("results", .arr docs)]) =
      .ok ⟨baton, hps⟩ := by
    simp [hpResp, fields, List.lookup_cons, listMember, hRead, pointerMember_stringOrNull, bind, Except.bind, pure,
      Except.pure]
  rw [decodePipeline, json.unmarshal_encode hpResp hBody, hResp]
  rfl

end QuicSql.Exchange
