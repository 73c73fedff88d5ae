import QuicSql.Httpapi.Cursor
import QuicSql.Wire.Envelope

/-!
# A result on the two endpoints

The native endpoint writes a result with bare cells, the Hrana endpoint inside the response
of a pipeline, with tagged cells and a row id that is left out when it is zero. The client
reads both into one type; the driver changes from one to the other when a transaction starts.
-/

namespace QuicSql.Httpapi

open Wire

variable {F : Type} (json : EnvelopeCodec) (b64 : Base64) (fl : FloatCodec F)

/-! ## The native response -/

/-- The cells are written as `NativeValue`. -/
structure ResultJSON (F : Type) where
  columns : List String
  rows : List (List (Value F))
  rowsAffected : Int64
  lastInsertID : Int64
  truncated : Bool

def toResultJSON (r : Hrana.Result F) : ResultJSON F where
  columns := r.columns
  rows := r.rows
  rowsAffected := r.rowsAffected
  lastInsertID := r.lastInsertID
  truncated := r.truncated

def ResultJSON.node (r : ResultJSON F) : Node json.Doc :=
  .obj ([("columns", .arr (r.columns.map .str)),
      ("rows", .rows (nativeMarshalJSON json.toJsonCodec b64 fl) r.rows),
      ("rows_affected", .int r.rowsAffected.toInt),
      ("last_insert_id", .int r.lastInsertID.toInt)] ++
    omitFalse "truncated" r.truncated)

def apiErrorNode (e : ApiError) : Node json.Doc :=
  .obj ([("message", .str e.message)] ++ omitZero "code" e.code ++ omitZero "extended_code" e.extendedCode)

/-- The error of a single statement has no index. -/
def errorEnvelope (e : ApiError) : Node json.Doc := .obj [("error", apiErrorNode json e)]

/-! ## The Hrana response -/

def hColNode (c : Hrana.HCol) : Node json.Doc :=
  .obj [("name", .stringOrNull c.name), ("decltype", .stringOrNull c.decltype)]

/-- The cells are written as `HranaValue`. -/
def hStmtResultNode (r : Hrana.HStmtResult F) : Node json.Doc :=
  .obj ([("cols", .arr (r.cols.map (hColNode json))),
      ("rows", .rows (hranaMarshalJSON json.toJsonCodec b64 fl) r.rows),
      ("affected_row_count", .int r.affectedRowCount.toInt),
      ("last_insert_rowid", .stringOrNull r.lastInsertRowid)] ++
    omitFalse "truncated" r.truncated)

def executeResp (r : Hrana.HStmtResult F) : Node json.Doc :=
  .obj [("type", .str "execute"), ("result", hStmtResultNode json b64 fl r)]

def okStream (response : Node json.Doc) : Node json.Doc := .obj [("type", .str "ok"), ("response", response)]

def hErrorNode (e : Wire.HError) : Node json.Doc := .obj [("message", .str e.message), ("code", .stringOrNull e.code)]

def errorStream (e : Wire.HError) : Node json.Doc := .obj [("type", .str "error"), ("error", hErrorNode json e)]

def pipelineResp (baton : Option String) (results : List (Node json.Doc)) : Node json.Doc :=
  .obj [("baton", .stringOrNull baton), ("base_url", .null), ("results", .arr results)]

end QuicSql.Httpapi

namespace QuicSql.Client

open Wire Httpapi

/-! ## What the client reads -/

/-- What `Value.Go` returns. -/
inductive GoValue (F : Type) where
  | nil
  | int64 (i : Int64)
  | float64 (f : F)
  | string (s : String)
  | bytes (b : List UInt8)
deriving DecidableEq, Repr

def goValue {F : Type} : Value F → GoValue F
  | .null => .nil
  | .int i => .int64 i
  | .float f => .float64 f
  | .text s => .string s
  | .blob b => .bytes b

structure Result (F : Type) where
  columns : List String
  rows : List (List (GoValue F))
  rowsAffected : Int64
  lastInsertID : Int64
  truncated : Bool
deriving DecidableEq, Repr

inductive Failure where
  | decode (context : String) (err : DecodeErr)
  | badRowid (text : String)
  | resultCount (got : Nat)
  | server (err : ClientError)
  | stream (message : String)
deriving DecidableEq, Repr

variable {F : Type} (json : EnvelopeCodec) (b64 : Base64) (fl : FloatCodec F)

def decodeRows (cell : Json → Except DecodeErr (Value F)) (rows : List (List Json)) :
    Except DecodeErr (List (List (GoValue F))) :=
  rows.mapM fun row => row.mapM fun raw => (cell raw).map goValue

def decodeCell (raw : Json) : Except DecodeErr (Value F) := fromNativeAny b64 fl raw

def decodeHValue (raw : Json) : Except DecodeErr (Value F) :=
  match hranaRaw raw with
  | .error err => .error err
  | .ok r => fromHranaRaw b64 fl r

/-! ### The native endpoint -/

structure QueryBody where
  columns : List String
  rows : List (List Json)
  rowsAffected : Int64
  lastInsertID : Int64
  truncated : Bool
  error : Option ErrorObject

def intItem (j : Json) : Except DecodeErr Int := (intMember (some j)).map Int64.toInt

def wireError (j : Json) : Except DecodeErr ErrorObject := do
  let member ← fields j
  let message ← stringMember (member "message")
  let code ← pointerMember intItem (member "code")
  let extendedCode ← pointerMember intItem (member "extended_code")
  return ⟨message, code, extendedCode⟩

def queryBody (j : Json) : Except DecodeErr QueryBody := do
  let member ← fields j
  let columns ← listMember stringItem (member "columns")
  let rows ← rawRows (member "rows")
  let rowsAffected ← intMember (member "rows_affected")
  let lastInsertID ← intMember (member "last_insert_id")
  let truncated ← boolMember (member "truncated")
  let error ← pointerMember wireError (member "error")
  return ⟨columns, rows, rowsAffected, lastInsertID, truncated, error⟩

/-- `Client.do` from the body of a response with status 200 on. -/
def doResult (body : json.Doc) : Except Failure (Result F) :=
  match json.unmarshal queryBody body with
  | .error err => .error (.decode "quicsql: decode response" err)
  | .ok raw =>
    match raw.error with
    | some e => .error (.server (doError e))
    | none =>
      match decodeRows (decodeCell b64 fl) raw.rows with
      | .error err => .error (.decode "quicsql: decode cell" err)
      | .ok rows => .ok ⟨raw.columns, rows, raw.rowsAffected, raw.lastInsertID, raw.truncated⟩

/-! ### The Hrana endpoint -/

structure HpStmtResult where
  cols : List (Option String)
  rows : List (List Json)
  affectedRowCount : Int64
  lastInsertRowid : Option String
  truncated : Bool

structure HpResult where
  type : String
  response : Option Json
  error : Option Wire.HError

structure HpResp where
  baton : Option String
  results : List HpResult

def hpCol (j : Json) : Except DecodeErr (Option String) := do
  let member ← fields j
  pointerMember stringItem (member "name")

def hpStmtResult (j : Json) : Except DecodeErr HpStmtResult := do
  let member ← fields j
  let cols ← listMember hpCol (member "cols")
  let rows ← rawRows (member "rows")
  let affectedRowCount ← intMember (member "affected_row_count")
  let lastInsertRowid ← pointerMember stringItem (member "last_insert_rowid")
  let truncated ← boolMember (member "truncated")
  return ⟨cols, rows, affectedRowCount, lastInsertRowid, truncated⟩

def hpExecuteResp (j : Json) : Except DecodeErr (Option HpStmtResult) := do
  let member ← fields j
  pointerMember hpStmtResult (member "result")

def hpError (j : Json) : Except DecodeErr Wire.HError := do
  let member ← fields j
  let message ← stringMember (member "message")
  let code ← pointerMember stringItem (member "code")
  return ⟨message, code⟩

def hpResult (j : Json) : Except DecodeErr HpResult := do
  let member ← fields j
  let type ← stringMember (member "type")
  let error ← pointerMember hpError (member "error")
  return ⟨type, member "response", error⟩

def hpResp (j : Json) : Except DecodeErr HpResp := do
  let member ← fields j
  let baton ← pointerMember stringItem (member "baton")
  let results ← listMember hpResult (member "results")
  return ⟨baton, results⟩

def streamFailure (e : Option Wire.HError) : Failure :=
  match hranaError e with
  | .error message => .stream message
  | .ok err => .server err

def rowid : Option String → Except Failure Int64
  | none => .ok 0
  | some text =>
    match parseInt text.toList with
    | none => .error (.badRowid text)
    | some id => .ok id

/-- A column without a name has the empty one. -/
def resultFrom (sr : HpStmtResult) : Except Failure (Result F) :=
  match rowid sr.lastInsertRowid with
  | .error err => .error err
  | .ok id =>
    match decodeRows (decodeHValue b64 fl) sr.rows with
    | .error err => .error (.decode "quicsql: decode cell" err)
    | .ok rows => .ok ⟨sr.cols.map fun c => c.getD "", rows, sr.affectedRowCount, id, sr.truncated⟩

def resultFromExecute (r : HpResult) : Except Failure (Result F) :=
  if r.type = "error" ∨ r.error.isSome then .error (streamFailure r.error)
  else
    match r.response with
    | none => .error (.decode "quicsql: decode execute result" .json)
    | some response =>
      match hpExecuteResp response with
      | .error err => .error (.decode "quicsql: decode execute result" err)
      | .ok none => .ok ⟨[], [], 0, 0, false⟩
      | .ok (some sr) => resultFrom b64 fl sr

/-- `Stream.Exec` from the body of a response with status 200 on. -/
def execResult (body : json.Doc) : Except Failure (Result F) :=
  match json.unmarshal hpResp body with
  | .error err => .error (.decode "quicsql: decode pipeline response" err)
  | .ok resp =>
    match resp.results with
    | [r] => resultFromExecute b64 fl r
    | results => .error (.resultCount results.length)

/-! ## What arrives -/

/-- The result with the floats that JSON cannot carry as nil. -/
def shown (res : Hrana.Result F) : Result F where
  columns := res.columns
  rows := res.rows.map fun row => row.map fun v => goValue (delivered fl v)
  rowsAffected := res.rowsAffected
  lastInsertID := res.lastInsertID
  truncated := res.truncated

variable {fl}

theorem decodeRows_map {cell : Json → Except DecodeErr (Value F)} {read : Value F → Json}
    (h : ∀ v, cell (read v) = .ok (delivered fl v)) (rows : List (List (Value F))) :
    decodeRows cell (rows.map fun row => row.map read) =
      .ok (rows.map fun row => row.map fun v => goValue (delivered fl v)) := by
  refine mapM_map_ok fun row _ => ?_
  refine mapM_map_ok fun v _ => ?_
  rw [h]
  rfl

variable (fl)

/-! ### The native endpoint -/

def nativeCell (v : Value F) : Json := json.parsed (nativeMarshalJSON json.toJsonCodec b64 fl v)

theorem nativeCell_spec (v : Value F) :
    json.decode (nativeMarshalJSON json.toJsonCodec b64 fl v) = some (nativeCell json b64 fl v) ∧
      decodeCell b64 fl (nativeCell json b64 fl v) = .ok (delivered fl v) :=
  JsonCodec.unmarshal_ok (native_round_trip json.toJsonCodec b64 v)

def truncatedMember (b : Bool) : List (String × Json) := if b then [("truncated", .bool true)] else []

theorem memberValues_omitFalse {D : Type} (decode : D → Option Json) (b : Bool) :
    memberValues decode (omitFalse "truncated" b) = some (truncatedMember b) := by
  cases b <;> rfl

theorem boolMember_truncatedMember (b : Bool) : boolMember ((truncatedMember b).lookup "truncated") = .ok b := by
  cases b <;> rfl

def queryDocument (r : ResultJSON F) : Json :=
  .obj ([("columns", .arr (r.columns.map .str)),
      ("rows", .arr (r.rows.map fun row => .arr (row.map (nativeCell json b64 fl)))),
      ("rows_affected", .num (Lib.Decimal.ofInt r.rowsAffected.toInt).text),
      ("last_insert_id", .num (Lib.Decimal.ofInt r.lastInsertID.toInt).text)] ++ truncatedMember r.truncated)

theorem node_value (r : ResultJSON F) : (r.node json b64 fl).value json.decode = some (queryDocument json b64 fl r) := by
  refine Node.value_obj ?_ ?_
  · cases r.truncated <;> simp [omitFalse]
  · refine memberValues_cons (Node.value_arr_map fun _ _ => rfl) ?_
    refine memberValues_cons (Node.value_rows r.rows fun v => (nativeCell_spec json b64 fl v).1) ?_
    refine memberValues_cons rfl (memberValues_cons rfl ?_)
    exact memberValues_omitFalse json.decode r.truncated

theorem queryBody_document (r : ResultJSON F) :
    queryBody (queryDocument json b64 fl r) =
      .ok ⟨r.columns, r.rows.map fun row => row.map (nativeCell json b64 fl), r.rowsAffected, r.lastInsertID,
        r.truncated, none⟩ := by
  have hError : (truncatedMember r.truncated).lookup "error" = none := by
    cases r.truncated <;> rfl
  simp [queryBody, queryDocument, fields, List.lookup_cons, strings_map, rawRows_map, intMember_toInt,
    boolMember_truncatedMember, hError, pointerMember, bind, Except.bind, pure, Except.pure]

theorem doResult_node (res : Hrana.Result F) :
    doResult json b64 fl (json.encode ((toResultJSON res).node json b64 fl)) = .ok (shown fl res) := by
  have hRows := decodeRows_map (fun v => (nativeCell_spec json b64 fl v).2) res.rows
  rw [doResult, json.unmarshal_encode queryBody (node_value json b64 fl (toResultJSON res)), queryBody_document]
  dsimp only [toResultJSON]
  rw [hRows]
  rfl

/-! ### The Hrana endpoint -/

def hranaCell (v : Value F) : Json := json.parsed (hranaMarshalJSON json.toJsonCodec b64 fl v)

theorem hranaCell_spec (v : Value F) :
    json.decode (hranaMarshalJSON json.toJsonCodec b64 fl v) = some (hranaCell json b64 fl v) ∧
      decodeHValue b64 fl (hranaCell json b64 fl v) = .ok (delivered fl v) :=
  JsonCodec.unmarshal_ok (hrana_round_trip json.toJsonCodec b64 v)

def stringOrNull : Option String → Json
  | none => .null
  | some s => .str s

theorem value_stringOrNull {D : Type} (decode : D → Option Json) (s : Option String) :
    (Node.stringOrNull s).value decode = some (stringOrNull s) := by
  cases s <;> rfl

theorem pointerMember_stringOrNull (s : Option String) : pointerMember stringItem (some (stringOrNull s)) = .ok s := by
  cases s <;> rfl

def colDocument (c : Hrana.HCol) : Json := .obj [("name", stringOrNull c.name), ("decltype", stringOrNull c.decltype)]

def stmtResultDocument (r : Hrana.HStmtResult F) : Json :=
  .obj ([("cols", .arr (r.cols.map colDocument)),
      ("rows", .arr (r.rows.map fun row => .arr (row.map (hranaCell json b64 fl)))),
      ("affected_row_count", .num (Lib.Decimal.ofInt r.affectedRowCount.toInt).text),
      ("last_insert_rowid", stringOrNull r.lastInsertRowid)] ++ truncatedMember r.truncated)

theorem hColNode_value (c : Hrana.HCol) : (hColNode json c).value json.decode = some (colDocument c) := by
  refine Node.value_obj (by simp) ?_
  refine memberValues_cons (value_stringOrNull json.decode c.name) ?_
  exact memberValues_cons (value_stringOrNull json.decode c.decltype) rfl

theorem hStmtResultNode_value (r : Hrana.HStmtResult F) :
    (hStmtResultNode json b64 fl r).value json.decode = some (stmtResultDocument json b64 fl r) := by
  refine Node.value_obj ?_ ?_
  · cases r.truncated <;> simp [omitFalse]
  · refine memberValues_cons (Node.value_arr_map fun c _ => hColNode_value json c) ?_
    refine memberValues_cons (Node.value_rows r.rows fun v => (hranaCell_spec json b64 fl v).1) ?_
    refine memberValues_cons rfl (memberValues_cons (value_stringOrNull json.decode r.lastInsertRowid) ?_)
    exact memberValues_omitFalse json.decode r.truncated

theorem hpStmtResult_document (r : Hrana.HStmtResult F) :
    hpStmtResult (stmtResultDocument json b64 fl r) =
      .ok ⟨r.cols.map Hrana.HCol.name, r.rows.map fun row => row.map (hranaCell json b64 fl), r.affectedRowCount,
        r.lastInsertRowid, r.truncated⟩ := by
  have hCol : ∀ c ∈ r.cols, hpCol (colDocument c) = .ok c.name := by
    intro c _
    exact pointerMember_stringOrNull c.name
  simp [hpStmtResult, stmtResultDocument, fields, List.lookup_cons, listMember_map hCol, rawRows_map, intMember_toInt,
    boolMember_truncatedMember, pointerMember_stringOrNull, bind, Except.bind, pure, Except.pure]

def executeDocument (r : Hrana.HStmtResult F) : Json :=
  .obj [("type", .str "execute"), ("result", stmtResultDocument json b64 fl r)]

def streamDocument (r : Hrana.HStmtResult F) : Json :=
  .obj [("type", .str "ok"), ("response", executeDocument json b64 fl r)]

theorem okStream_value (r : Hrana.HStmtResult F) :
    (okStream json (executeResp json b64 fl r)).value json.decode = some (streamDocument json b64 fl r) := by
  have hExecute : (executeResp json b64 fl r).value json.decode = some (executeDocument json b64 fl r) := by
    refine Node.value_obj (by simp) (memberValues_cons rfl ?_)
    exact memberValues_cons (hStmtResultNode_value json b64 fl r) rfl
  exact Node.value_obj (by simp) (memberValues_cons rfl (memberValues_cons hExecute rfl))

def okResult (r : Hrana.HStmtResult F) : HpResult := ⟨"ok", some (executeDocument json b64 fl r), none⟩

theorem execResult_pipelineResp {result : Node json.Doc} {j : Json} {r : HpResult}
    (hValue : result.value json.decode = some j) (hRead : hpResult j = .ok r) (baton : Option String) :
    execResult json b64 fl (json.encode (pipelineResp json baton [result])) = resultFromExecute b64 fl r := by
  have hBody : (pipelineResp json baton [result]).value json.decode =
      some (.obj [("baton", stringOrNull baton), ("base_url", .null), ("results", .arr [j])]) := by
    refine Node.value_obj (by simp) ?_
    refine memberValues_cons (value_stringOrNull json.decode baton) (memberValues_cons rfl (memberValues_cons ?_ rfl))
    simp only [Node.value, values, hValue, Option.map_some]
  have hResults : listMember hpResult (some (.arr [j])) = .ok [r] := by
    rw [listMember, List.mapM_cons, hRead]
    rfl
  have hResp : hpResp (.obj [("baton", stringOrNull baton), ("base_url", .null), ("results", .arr [j])]) =
      .ok ⟨baton, [r]⟩ := by
    simp [hpResp, fields, List.lookup_cons, hResults, pointerMember_stringOrNull, bind, Except.bind, pure, Except.pure]
  rw [execResult, json.unmarshal_encode hpResp hBody, hResp]

theorem rowid_toHStmtResult (res : Hrana.Result F) (wantRows : Option Bool) :
    rowid (Hrana.toHStmtResult res wantRows).lastInsertRowid = .ok res.lastInsertID := by
  dsimp only [Hrana.toHStmtResult]
  split
  · simp only [rowid, String.toList_ofList, parseInt_formatInt]
  · rename_i hZero
    rw [Decidable.not_not.mp hZero]
    rfl

theorem resultFromExecute_okResult {wantRows : Option Bool} (hWant : wantRows ≠ some false) (res : Hrana.Result F) :
    resultFromExecute b64 fl (okResult json b64 fl (Hrana.toHStmtResult res wantRows)) = .ok (shown fl res) := by
  have hAll : (Hrana.toHStmtResult res wantRows).rows = res.rows := by
    match wantRows, hWant with
    | none, _ | some true, _ => rfl
  have hNames : ((Hrana.toHStmtResult res wantRows).cols.map Hrana.HCol.name).map (fun c => c.getD "") = res.columns := by
    simp [Hrana.toHStmtResult, Function.comp_def]
  have hRows := decodeRows_map (fun v => (hranaCell_spec json b64 fl v).2) res.rows
  have hExecute : hpExecuteResp (executeDocument json b64 fl (Hrana.toHStmtResult res wantRows)) =
      (hpStmtResult (stmtResultDocument json b64 fl (Hrana.toHStmtResult res wantRows))).map some := rfl
  rw [hpStmtResult_document] at hExecute
  simp only [resultFromExecute, okResult, hExecute, Except.map, resultFrom, rowid_toHStmtResult, hAll, hRows, hNames]
  rfl

/-- One result of the engine, over the query endpoint and over a pipeline. -/
theorem endpoints_show_same_result (json : EnvelopeCodec) (b64 : Base64) (fl : FloatCodec F) (res : Hrana.Result F)
    (baton : Option String) (wantRows : Option Bool) (hWant : wantRows ≠ some false) :
    doResult json b64 fl (json.encode ((toResultJSON res).node json b64 fl)) = .ok (shown fl res) ∧
      execResult json b64 fl (json.encode (pipelineResp json baton
        [okStream json (executeResp json b64 fl (Hrana.toHStmtResult res wantRows))])) = .ok (shown fl res) := by
  have hRead : hpResult (streamDocument json b64 fl (Hrana.toHStmtResult res wantRows)) =
      .ok (okResult json b64 fl (Hrana.toHStmtResult res wantRows)) := rfl
  refine ⟨doResult_node json b64 fl res, ?_⟩
  rw [execResult_pipelineResp json b64 fl (okStream_value json b64 fl _) hRead]
  exact resultFromExecute_okResult json b64 fl hWant res

def odd : Hrana.Result (Option (Bool × Nat)) :=
  ⟨["a", "a"], [[.int (-1), .float none], [.text "x", .blob [0, 255]]], 1, -1, true⟩

theorem odd_result_arrives :
    doResult plainEnvelope stdEncoding integralFloats (plainEnvelope.encode ((toResultJSON odd).node plainEnvelope stdEncoding
        integralFloats)) =
      .ok ⟨["a", "a"], [[.int64 (-1), .nil], [.string "x", .bytes [0, 255]]], 1, -1, true⟩ ∧
    execResult plainEnvelope stdEncoding integralFloats (plainEnvelope.encode (pipelineResp plainEnvelope (some "b")
        [okStream plainEnvelope (executeResp plainEnvelope stdEncoding integralFloats (Hrana.toHStmtResult odd (some true)))])) =
      .ok ⟨["a", "a"], [[.int64 (-1), .nil], [.string "x", .bytes [0, 255]]], 1, -1, true⟩ :=
  endpoints_show_same_result plainEnvelope stdEncoding integralFloats odd (some "b") (some true) (by decide)

/-! ## Errors -/

/-- The range of Go's `int`. -/
def Representable (i : Int) : Prop := -2 ^ 63 ≤ i ∧ i < 2 ^ 63

theorem intItem_ofInt {i : Int} (h : Representable i) : intItem (.num (Lib.Decimal.ofInt i).text) = .ok i := by
  rw [intItem, intMember_ofInt h.1 h.2, Except.map, Int64.toInt_ofInt_of_le h.1 h.2]

theorem wireError_apiErrorNode (e : ApiError) (hCode : Representable e.code) (hExtended : Representable e.extendedCode) :
    ∃ members, (apiErrorNode json e).value json.decode = some (.obj members) ∧ wireError (.obj members) = .ok e.marshal := by
  by_cases hc : e.code = 0 <;> by_cases hx : e.extendedCode = 0 <;>
    simp [apiErrorNode, omitZero, hc, hx, Node.value, memberValues, wireError, fields, List.lookup_cons, List.lookup_nil,
      stringMember, pointerMember, intItem_ofInt, hCode, hExtended, bind, Except.bind, pure, Except.pure, Except.map,
      ApiError.marshal, omitEmpty]

theorem doResult_errorEnvelope (e : ApiError) (hCode : Representable e.code) (hExtended : Representable e.extendedCode) :
    doResult json b64 fl (json.encode (errorEnvelope json e)) = .error (.server (doError e.marshal)) := by
  obtain ⟨members, hValue, hRead⟩ := wireError_apiErrorNode json e hCode hExtended
  have hEnvelope : (errorEnvelope json e).value json.decode = some (.obj [("error", .obj members)]) :=
    Node.value_obj (by simp) (memberValues_cons hValue rfl)
  have hBody : queryBody (.obj [("error", .obj members)]) = .ok ⟨[], [], 0, 0, false, some e.marshal⟩ := by
    simp [queryBody, fields, List.lookup_cons, List.lookup_nil, listMember, rawRows, intMember, boolMember,
      pointerMember, hRead, bind, Except.bind, pure, Except.pure, Except.map]
  rw [doResult, json.unmarshal_encode queryBody hEnvelope, hBody]

theorem execResult_errorStream (e : Wire.HError) (baton : Option String) :
    execResult json b64 fl (json.encode (pipelineResp json baton [errorStream json e])) =
      .error (streamFailure (some e)) := by
  have hError : (hErrorNode json e).value json.decode =
      some (.obj [("message", .str e.message), ("code", stringOrNull e.code)]) :=
    Node.value_obj (by simp) (memberValues_cons rfl (memberValues_cons (value_stringOrNull json.decode e.code) rfl))
  have hStream : (errorStream json e).value json.decode = some (.obj [("type", .str "error"),
      ("error", .obj [("message", .str e.message), ("code", stringOrNull e.code)])]) :=
    Node.value_obj (by simp) (memberValues_cons rfl (memberValues_cons hError rfl))
  have hMember : hpError (.obj [("message", .str e.message), ("code", stringOrNull e.code)]) = .ok e := by
    simp [hpError, fields, List.lookup_cons, stringMember, pointerMember_stringOrNull, bind, Except.bind, pure, Except.pure]
  have hRead : hpResult (.obj [("type", .str "error"),
      ("error", .obj [("message", .str e.message), ("code", stringOrNull e.code)])]) = .ok ⟨"error", none, some e⟩ := by
    simp [hpResult, fields, List.lookup_cons, List.lookup_nil, stringMember, pointerMember, hMember, bind, Except.bind,
      pure, Except.pure, Except.map]
  rw [execResult_pipelineResp json b64 fl hStream hRead]
  rfl

/-- An error of SQLite arrives as the two client errors, over the same documents. -/
theorem endpoints_show_errors (e : EngineError) (hCode : Representable e.code) (hExtended : Representable e.extended)
    (baton : Option String) :
    doResult json b64 fl (json.encode (errorEnvelope json (toAPIError (.sqlite e)))) =
        .error (.server (nativeClientError (.sqlite e))) ∧
      ∃ err, hranaClientError (.sqlite e) = .ok err ∧
        execResult json b64 fl (json.encode (pipelineResp json baton [errorStream json (hErrorFrom (.sqlite e))])) =
          .error (.server err) := by
  refine ⟨doResult_errorEnvelope json b64 fl _ hCode hExtended, _, hranaClientError_sqlite e, ?_⟩
  rw [execResult_errorStream]
  rfl

end QuicSql.Client
