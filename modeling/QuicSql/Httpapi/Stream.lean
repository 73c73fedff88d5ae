import Mathlib.Data.Finmap
import QuicSql.Engine.Classify

/-!
# The requests of a stream

A pipeline runs its requests one after another on the pinned connection of a session, with the
texts and the capture that the session keeps between them. A text that was stored under a number
is an abbreviation: the pipeline does the same with every number replaced by its text.
-/

namespace QuicSql.Hrana

open Wire

variable {F σ κ : Type}

/-! ## The connection -/

/-- What a prepared statement says of itself: the name and the declared type of each column, the
names of the parameters, and whether it only reads. -/
structure Prepared where
  columns : List (String × String)
  binds : List String
  readonly : Bool

/-- A connection in state `σ`, with captures of type `κ`. -/
structure PinnedConn (F σ κ : Type) where
  run : σ → Statement F → σ × Except RunError (Result F)
  autocommit : σ → Bool
  execContext : σ → String → σ × Except RunError Unit
  prepare : σ → String → σ × Except RunError Prepared
  createSession : σ → σ × Except RunError κ
  attach : σ → κ → String → σ × Except RunError Unit
  changeset : σ → κ → σ × Except RunError (List UInt8)
  closeSession : σ → κ → σ

structure Stream (σ κ : Type) where
  conn : σ
  sqls : Finmap (fun _ : Int => String)
  capture : Option κ
  allowsAttach : Bool

def Stream.session (c : PinnedConn F σ κ) (s : Stream σ κ) : Session F σ where
  run := c.run
  autocommit := c.autocommit
  lookupSQL id := s.sqls.lookup id
  allowsAttach := s.allowsAttach

/-! ## Requests and responses -/

structure StreamRequest (F : Type) where
  type : String
  stmt : Option (HStmt F)
  batch : Option (HBatch F)
  sql : Option String
  sqlId : Option Int
  tables : List String

inductive Kind where
  | execute
  | batch
  | sequence
  | describe
  | storeSql
  | closeSql
  | getAutocommit
  | sessionStart
  | sessionChangeset
  | close
  | unknown (type : String)
deriving DecidableEq, Repr

def kindNames : List (String × Kind) :=
  [("execute", .execute), ("batch", .batch), ("sequence", .sequence), ("describe", .describe), ("store_sql", .storeSql),
   ("close_sql", .closeSql), ("get_autocommit", .getAutocommit), ("session_start", .sessionStart),
   ("session_changeset", .sessionChangeset), ("close", .close)]

def StreamRequest.kind (sr : StreamRequest F) : Kind := (kindNames.lookup sr.type).getD (.unknown sr.type)

structure HDescribeResult where
  params : List (Option String)
  cols : List HCol
  isExplain : Bool
  isReadonly : Bool
deriving DecidableEq, Repr

inductive Response (F : Type) where
  | execute (result : HStmtResult F)
  | batch (result : HBatchResult F)
  | sequence
  | describe (result : HDescribeResult)
  | storeSql
  | closeSql
  | getAutocommit (isAutocommit : Bool)
  | sessionStart
  | sessionChangeset (changeset : List UInt8)
  | close

abbrev StreamResult (F : Type) := Except HError (Response F)

def errStream (msg : String) : StreamResult F := .error ⟨msg, none⟩

def answer {α : Type} (response : α → Response F) : Except RunError α → StreamResult F
  | .error err => .error (hErrorFrom err)
  | .ok a => .ok (response a)

/-! ## Captures and descriptions -/

variable (c : PinnedConn F σ κ)

def attachAll (cap : κ) : σ → List String → σ × Except RunError Unit
  | s, [] => (s, .ok ())
  | s, table :: rest =>
    match c.attach s cap table with
    | (s', .error err) => (s', .error err)
    | (s', .ok ()) => attachAll cap s' rest

/-- The empty name attaches all tables. A capture that does not attach is closed again. -/
def startCapture (s : Stream σ κ) (tables : List String) : Stream σ κ × Except RunError Unit :=
  if s.capture.isSome then (s, .error (.protocol "a capture session is already open on this stream"))
  else
    match c.createSession s.conn with
    | (conn, .error err) => ({ s with conn := conn }, .error err)
    | (conn, .ok cap) =>
      match attachAll c cap conn (if tables.length = 0 then [""] else tables) with
      | (conn', .error err) => ({ s with conn := c.closeSession conn' cap }, .error err)
      | (conn', .ok ()) => ({ s with conn := conn', capture := some cap }, .ok ())

/-- A capture is read once; it is closed whether its changeset could be read or not. -/
def captureChangeset (s : Stream σ κ) : Stream σ κ × Except RunError (List UInt8) :=
  match s.capture with
  | none => (s, .error (.protocol "no capture session open (send session_start first)"))
  | some cap =>
    match c.changeset s.conn cap with
    | (conn, cs) => ({ s with conn := c.closeSession conn cap, capture := none }, cs)

def isExplain (sql : String) : Bool := Engine.asciiUpper (Engine.firstToken sql) = "EXPLAIN"

def describeStmt (s : σ) (sql : String) : σ × Except RunError HDescribeResult :=
  match c.prepare s sql with
  | (s', .error err) => (s', .error err)
  | (s', .ok p) =>
    (s', .ok ⟨p.binds.map fun name => if name ≠ "" then some name else none,
      p.columns.map fun col => ⟨some col.1, if col.2 ≠ "" then some col.2 else none⟩, isExplain sql, p.readonly⟩)

/-! ## The pipeline -/

/-- A request that is about one text, given or stored. -/
def withText (s : Stream σ κ) (sr : StreamRequest F) {α : Type} (response : α → Response F)
    (act : σ → String → σ × Except RunError α) : Stream σ κ × StreamResult F × Bool :=
  match resolveSQL (s.session c) sr.sql sr.sqlId with
  | .error err => (s, .error (hErrorFrom err), false)
  | .ok sql =>
    match act s.conn sql with
    | (conn, o) => ({ s with conn := conn }, answer response o, false)

/-- The stream afterwards, the result, and whether the stream ends; nothing if the server panics. -/
def runStreamRequest (s : Stream σ κ) (sr : StreamRequest F) : Option (Stream σ κ × StreamResult F × Bool) :=
  match sr.kind with
  | .execute =>
    match sr.stmt with
    | none => some (s, errStream "execute requires a stmt", false)
    | some st =>
      match execStmt (s.session c) s.conn st with
      | (conn, o) => some ({ s with conn := conn }, answer .execute o, false)
  | .batch =>
    match sr.batch with
    | none => some (s, errStream "batch requires a batch", false)
    | some b => (execBatch (s.session c) b s.conn).map fun r => ({ s with conn := r.1 }, .ok (.batch r.2), false)
  | .sequence => some (withText c s sr (fun _ => .sequence) c.execContext)
  | .describe => some (withText c s sr .describe (describeStmt c))
  | .storeSql =>
    match sr.sqlId, sr.sql with
    | some id, some sql =>
      match s.sqls.lookup id with
      | some _ => some (s, errStream "sql_id already in use", false)
      | none => some ({ s with sqls := s.sqls.insert id sql }, .ok .storeSql, false)
    | _, _ => some (s, errStream "store_sql requires sql_id and sql", false)
  | .closeSql =>
    match sr.sqlId with
    | some id => some ({ s with sqls := s.sqls.erase id }, .ok .closeSql, false)
    | none => some (s, .ok .closeSql, false)
  | .getAutocommit => some (s, .ok (.getAutocommit (c.autocommit s.conn)), false)
  | .sessionStart =>
    match startCapture c s sr.tables with
    | (s', o) => some (s', answer (fun _ => .sessionStart) o, false)
  | .sessionChangeset =>
    match captureChangeset c s with
    | (s', o) => some (s', answer .sessionChangeset o, false)
  | .close => some (s, .ok .close, true)
  | .unknown type => some (s, errStream ("unknown request type: " ++ type), false)

/-- The loop over the requests: the stream, whether it was closed, and the results. -/
def serve : Stream σ κ → Bool → List (StreamRequest F) → Option (Stream σ κ × Bool × List (StreamResult F))
  | s, closed, [] => some (s, closed, [])
  | s, true, _ :: rest => (serve s true rest).map fun r => (r.1, r.2.1, errStream "stream is closed" :: r.2.2)
  | s, false, sr :: rest =>
    match runStreamRequest c s sr with
    | none => none
    | some (s', res, closeStream) => (serve s' closeStream rest).map fun r => (r.1, r.2.1, res :: r.2.2)

theorem serve_closed (s : Stream σ κ) (requests : List (StreamRequest F)) :
    serve c s true requests = some (s, true, requests.map fun _ => errStream "stream is closed") := by
  induction requests with
  | nil => rfl
  | cons sr rest ih => rw [serve, ih, Option.map_some, List.map_cons]

def inlineSQL (sqls : Finmap (fun _ : Int => String)) : Option String → Option Int → Option String
  | some sql, _ => some sql
  | none, some id => sqls.lookup id
  | none, none => none

def HStmt.inline (sqls : Finmap (fun _ : Int => String)) (st : HStmt F) : HStmt F :=
  { st with sql := inlineSQL sqls st.sql st.sqlId }

def HBatchStep.mapStmt (f : HStmt F → HStmt F) (step : HBatchStep F) : HBatchStep F := { step with stmt := f step.stmt }

def HBatch.mapStmt (f : HStmt F → HStmt F) (b : HBatch F) : HBatch F where
  steps := b.steps.map (HBatchStep.mapStmt f)
  numbered := by rw [List.length_map]; exact b.numbered

def StreamRequest.inline (sqls : Finmap (fun _ : Int => String)) (sr : StreamRequest F) : StreamRequest F :=
  { sr with
    stmt := sr.stmt.map (HStmt.inline sqls)
    batch := sr.batch.map (HBatch.mapStmt (HStmt.inline sqls))
    sql := inlineSQL sqls sr.sql sr.sqlId }

def StreamRequest.storing (sr : StreamRequest F) : Bool := sr.kind = .storeSql || sr.kind = .closeSql

/-- The texts after a request. A number that is in use keeps its text. -/
def storedAfter (sqls : Finmap (fun _ : Int => String)) (sr : StreamRequest F) : Finmap (fun _ : Int => String) :=
  match sr.kind, sr.sqlId, sr.sql with
  | .storeSql, some id, some sql => if (sqls.lookup id).isSome then sqls else sqls.insert id sql
  | .closeSql, some id, _ => sqls.erase id
  | _, _, _ => sqls

/-- The pipeline without stored texts. -/
def inlineAll (sqls : Finmap (fun _ : Int => String)) : List (StreamRequest F) → List (StreamRequest F)
  | [] => []
  | sr :: rest =>
    if sr.storing then inlineAll (storedAfter sqls sr) rest else sr.inline sqls :: inlineAll sqls rest

def keptResults : List (StreamRequest F) → List (StreamResult F) → List (StreamResult F)
  | sr :: rest, res :: results => if sr.storing then keptResults rest results else res :: keptResults rest results
  | _, _ => []

def Stream.forget (s : Stream σ κ) : Stream σ κ := { s with sqls := ∅ }

variable {c}

/-! ### One request -/

theorem resolveSQL_inline (s : Stream σ κ) (sql : Option String) (id : Option Int) :
    resolveSQL (s.forget.session c) (inlineSQL s.sqls sql id) id = resolveSQL (s.session c) sql id := by
  cases sql with
  | some sql => rfl
  | none =>
    cases id with
    | none => rfl
    | some id =>
      simp only [inlineSQL, resolveSQL, Stream.session, Stream.forget]
      cases s.sqls.lookup id with
      | none => simp
      | some sql => rfl

theorem execStmt_inline (s : Stream σ κ) (conn : σ) (st : HStmt F) :
    execStmt (s.forget.session c) conn (st.inline s.sqls) = execStmt (s.session c) conn st := by
  unfold execStmt
  rw [show (st.inline s.sqls).sql = inlineSQL s.sqls st.sql st.sqlId from rfl,
    show (st.inline s.sqls).sqlId = st.sqlId from rfl, resolveSQL_inline]
  rfl

/-- Batches differ in nothing if their statements do the same. -/
theorem runSteps_mapStmt {ω : Type} {sess sess' : Session F σ} {f : HStmt F → HStmt F}
    (hExec : ∀ s st, execStmt sess' s (f st) = execStmt sess s st) (hAutocommit : sess'.autocommit = sess.autocommit)
    (emit : Nat → Outcome F → ω → ω × Bool) (i : Nat) (steps : List (HBatchStep F)) (s : σ) (w : ω) (out : HBatchResult F)
    (ac : Bool) :
    runSteps sess' emit i (steps.map (HBatchStep.mapStmt f)) s w out ac = runSteps sess emit i steps s w out ac := by
  induction steps generalizing i s w out ac with
  | nil => rfl
  | cons step rest ih =>
    rw [List.map_cons, runSteps, runSteps]
    simp only [HBatchStep.mapStmt, hExec, hAutocommit, ih]

theorem execBatch_inline (s : Stream σ κ) (conn : σ) (b : HBatch F) :
    execBatch (s.forget.session c) (b.mapStmt (HStmt.inline s.sqls)) conn = execBatch (s.session c) b conn := by
  unfold execBatch runHranaBatch HBatch.mapStmt
  rw [List.length_map]
  rw [runSteps_mapStmt (execStmt_inline s) rfl]
  rfl

theorem withText_inline (s : Stream σ κ) (sr : StreamRequest F) {α : Type} (response : α → Response F)
    (act : σ → String → σ × Except RunError α) :
    withText c s.forget (sr.inline s.sqls) response act =
      ((withText c s sr response act).1.forget, (withText c s sr response act).2) := by
  unfold withText
  rw [show (sr.inline s.sqls).sql = inlineSQL s.sqls sr.sql sr.sqlId from rfl,
    show (sr.inline s.sqls).sqlId = sr.sqlId from rfl, resolveSQL_inline]
  cases resolveSQL (s.session c) sr.sql sr.sqlId <;> rfl

theorem startCapture_forget (s : Stream σ κ) (tables : List String) :
    startCapture c s.forget tables = ((startCapture c s tables).1.forget, (startCapture c s tables).2) := by
  unfold startCapture
  rw [show s.forget.capture = s.capture from rfl, show s.forget.conn = s.conn from rfl]
  cases s.capture.isSome with
  | true => rfl
  | false =>
    obtain ⟨conn, err | cap⟩ := c.createSession s.conn
    · rfl
    · dsimp only
      obtain ⟨conn', err | -⟩ := attachAll c cap conn (if tables.length = 0 then [""] else tables) <;> rfl

theorem captureChangeset_forget (s : Stream σ κ) :
    captureChangeset c s.forget = ((captureChangeset c s).1.forget, (captureChangeset c s).2) := by
  unfold captureChangeset
  rw [show s.forget.capture = s.capture from rfl]
  cases s.capture <;> rfl

/-- A request that is not about stored texts does the same with its texts written out. -/
theorem runStreamRequest_inline (s : Stream σ κ) {sr : StreamRequest F} (h : sr.storing = false) :
    runStreamRequest c s.forget (sr.inline s.sqls) =
      (runStreamRequest c s sr).map fun r => (r.1.forget, r.2) := by
  have hKind : (sr.inline s.sqls).kind = sr.kind := rfl
  unfold runStreamRequest
  rw [hKind]
  cases hCase : sr.kind with
  | execute =>
    cases hStmt : sr.stmt with
    | none => simp [StreamRequest.inline, hStmt]
    | some st =>
      simp only [StreamRequest.inline, hStmt, Option.map_some]
      rw [show s.forget.conn = s.conn from rfl, execStmt_inline]
      rfl
  | batch =>
    cases hBatch : sr.batch with
    | none => simp [StreamRequest.inline, hBatch]
    | some b =>
      simp only [StreamRequest.inline, hBatch, Option.map_some]
      rw [show s.forget.conn = s.conn from rfl, execBatch_inline, Option.map_map]
      rfl
  | sequence => simp only [withText_inline, Option.map_some]
  | describe => simp only [withText_inline, Option.map_some]
  | storeSql => simp [StreamRequest.storing, hCase] at h
  | closeSql => simp [StreamRequest.storing, hCase] at h
  | getAutocommit => rfl
  | sessionStart => simp only [StreamRequest.inline, startCapture_forget, Option.map_some]
  | sessionChangeset => simp only [captureChangeset_forget, Option.map_some]
  | close => rfl
  | unknown type => rfl

theorem startCapture_sqls (s : Stream σ κ) (tables : List String) : (startCapture c s tables).1.sqls = s.sqls := by
  unfold startCapture
  split
  · rfl
  · split
    · rfl
    · split <;> rfl

theorem captureChangeset_sqls (s : Stream σ κ) : (captureChangeset c s).1.sqls = s.sqls := by
  unfold captureChangeset
  split <;> rfl

theorem withText_sqls (s : Stream σ κ) (sr : StreamRequest F) {α : Type} (response : α → Response F)
    (act : σ → String → σ × Except RunError α) : (withText c s sr response act).1.sqls = s.sqls := by
  unfold withText
  split <;> rfl

theorem runStreamRequest_sqls {s s' : Stream σ κ} {sr : StreamRequest F} {res : StreamResult F} {closed : Bool}
    (hStoring : sr.storing = false) (h : runStreamRequest c s sr = some (s', res, closed)) : s'.sqls = s.sqls := by
  unfold runStreamRequest at h
  cases hKind : sr.kind with
  | execute =>
    simp only [hKind] at h
    split at h <;> cases h <;> rfl
  | batch =>
    simp only [hKind] at h
    split at h
    · cases h
      rfl
    · obtain ⟨r, -, hr⟩ := Option.map_eq_some_iff.mp h
      cases hr
      rfl
  | sequence | describe =>
    simp only [hKind, Option.some.injEq] at h
    exact (congrArg (fun r => r.1.sqls) h).symm.trans (withText_sqls s sr _ _)
  | storeSql | closeSql => simp [StreamRequest.storing, hKind] at hStoring
  | sessionStart =>
    simp only [hKind] at h
    cases h
    exact startCapture_sqls s sr.tables
  | sessionChangeset =>
    simp only [hKind] at h
    cases h
    exact captureChangeset_sqls s
  | getAutocommit | close | unknown =>
    simp only [hKind] at h
    cases h
    rfl

theorem runStreamRequest_storing (s : Stream σ κ) {sr : StreamRequest F} (h : sr.storing = true) :
    ∃ res, runStreamRequest c s sr = some ({ s with sqls := storedAfter s.sqls sr }, res, false) := by
  unfold runStreamRequest storedAfter
  rcases Bool.or_eq_true_iff.mp h with hKind | hKind
  · simp only [of_decide_eq_true hKind]
    cases sr.sqlId with
    | none => exact ⟨_, rfl⟩
    | some id =>
      cases sr.sql with
      | none => exact ⟨_, rfl⟩
      | some sql =>
        dsimp only
        cases s.sqls.lookup id <;> exact ⟨_, rfl⟩
  · simp only [of_decide_eq_true hKind]
    cases sr.sqlId <;> exact ⟨_, rfl⟩

/-! ### A whole pipeline -/

theorem inlineAll_storing (sqls : Finmap (fun _ : Int => String)) (requests : List (StreamRequest F)) :
    ∀ sr ∈ inlineAll sqls requests, sr.storing = false := by
  induction requests generalizing sqls with
  | nil => simp [inlineAll]
  | cons sr rest ih =>
    unfold inlineAll
    split
    · exact ih _
    · rename_i hStoring
      intro sr' hMem
      rcases List.mem_cons.mp hMem with rfl | hRest
      · exact Bool.not_eq_true _ ▸ hStoring
      · exact ih sqls sr' hRest

theorem keptResults_closed (sqls : Finmap (fun _ : Int => String)) (requests : List (StreamRequest F)) (res : StreamResult F) :
    (inlineAll sqls requests).map (fun _ => res) = keptResults requests (requests.map fun _ => res) := by
  induction requests generalizing sqls with
  | nil => rfl
  | cons sr rest ih =>
    rw [List.map_cons, keptResults, inlineAll]
    split
    · exact ih _
    · rw [List.map_cons, ih]

/-- A stored text is an abbreviation. The pipeline in which every number is replaced by the text
stored under it, on a stream that stores nothing, leaves the same connection and capture, closes
the stream in the same place and gives the same results. -/
theorem stored_sql_abbreviates (c : PinnedConn F σ κ) (s : Stream σ κ) (requests : List (StreamRequest F)) :
    (∀ sr ∈ inlineAll s.sqls requests, sr.kind ≠ .storeSql ∧ sr.kind ≠ .closeSql) ∧
      serve c s.forget false (inlineAll s.sqls requests) =
        (serve c s false requests).map fun r => (r.1.forget, r.2.1, keptResults requests r.2.2) := by
  constructor
  · intro sr hMem
    have hStoring := inlineAll_storing s.sqls requests sr hMem
    simpa [StreamRequest.storing] using hStoring
  · induction requests generalizing s with
    | nil => rfl
    | cons sr rest ih =>
      cases hStoring : sr.storing with
      | true =>
        obtain ⟨res, hRun⟩ := runStreamRequest_storing (c := c) s hStoring
        rw [inlineAll, if_pos hStoring, serve, hRun]
        have hRest := ih { s with sqls := storedAfter s.sqls sr }
        rw [show ({ s with sqls := storedAfter s.sqls sr } : Stream σ κ).forget = s.forget from rfl] at hRest
        simp only [hRest, Option.map_map, Function.comp_def, keptResults, hStoring, if_true]
      | false =>
        rw [inlineAll, hStoring, if_neg Bool.false_ne_true, serve, serve, runStreamRequest_inline s hStoring]
        cases hRun : runStreamRequest c s sr with
        | none => rfl
        | some step =>
          obtain ⟨s', res, closed⟩ := step
          have hSqls := runStreamRequest_sqls hStoring hRun
          simp only [Option.map_some]
          cases closed with
          | true =>
            rw [serve_closed, serve_closed]
            simp only [Option.map_some, keptResults, hStoring, keptResults_closed, Bool.false_eq_true, if_false]
          | false =>
            rw [← hSqls, ih s']
            simp only [Option.map_map, Function.comp_def, keptResults, hStoring, Bool.false_eq_true, if_false]

end QuicSql.Hrana
