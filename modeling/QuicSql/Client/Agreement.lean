import QuicSql.Client.Exchange
import QuicSql.Client.Pinned

/-!
# One statement, one stream, one batch

A statement does the same over the native endpoint and as the first of a stream. The statements
of a batch do the same as over a stream that sends one after the other.
-/

namespace QuicSql.Exchange

open Wire Documents Lib Sessions
open Httpapi (apiErrorNode errorEnvelope pipelineResp)
open Client (Result wireError queryBody doResult doResult_node)

variable {F σ κ : Type}

/-! ## A session between two requests -/

/-- The server can open a session: it obtains the handle and the connection, in state `conn`, and
there is a slot. -/
structure Ready (caller : Open) (draw : Draw σ) (srv : Server σ κ) (ref : Ref) (conn : ConnId) (state : σ)
    (id : SessionId) : Prop where
  ref : draw.ref = .ok ref
  conn : draw.conn = .ok (conn, state, id)
  slot : srv.store.perDB caller.db < srv.store.max
  ttl : 0 ≤ srv.store.ttl
  maxLife : 0 ≤ srv.store.maxLife

def sessionAt (caller : Open) (ref : Ref) (conn : ConnId) (id : SessionId) (now : Time) (gen : Nat) (busy : Bool) :
    Session where
  id := id
  gen := gen
  conn := conn
  release := ref
  dbName := caller.db
  principal := caller.principal
  readOnly := caller.readOnly
  attach := caller.attach
  created := now
  lastUsed := now
  busy := busy

/-- The session at generation `gen`, in a request if it is busy; no time has passed since it was
opened. -/
structure Held (caller : Open) (srv : Server σ κ) (p : Ptr) (id : SessionId) (gen : Nat) (busy : Bool)
    (st : Hrana.Stream σ κ) : Prop where
  keeps : srv.streams p = st
  lookup : srv.store.sessions.lookup id = some p
  session : ∃ ref conn, srv.store.heap p = sessionAt caller ref conn id srv.store.now gen busy
  ttl : 0 ≤ srv.store.ttl
  maxLife : 0 ≤ srv.store.maxLife

variable {json : EnvelopeCodec} {b64 : Base64} {fl : FloatCodec F} {detail : DecodeErr → String}
  {caps : BodyCaps json.Doc} {codec : Driver.BatonCodec} {caller : Open} {draw : Draw σ} {c : Hrana.PinnedConn F σ κ}
  {srv : Server σ κ} {ref : Ref} {conn : ConnId} {state : σ} {id : SessionId} {p : Ptr} {gen : Nat}
  {st : Hrana.Stream σ κ}

variable (codec) in
theorem Ready.opens (h : Ready caller draw srv ref conn state id) :
    ∃ srv', stream codec.toCodec caller draw srv none = (srv', .ok srv.store.nextPtr) ∧
      Held caller srv' srv.store.nextPtr id 1 true ⟨state, ∅, none, caller.attach⟩ := by
  have hSlot : srv.store.reserveSlot caller.db = .ok (srv.store.addSlot caller.db 1) := if_neg (by have := h.slot; omega)
  have hOpen : stream codec.toCodec caller draw srv none = (({
      store := (srv.store.addSlot caller.db 1).insertSession (caller.session ref conn id srv.store.now)
      streams := Function.update srv.streams srv.store.nextPtr ⟨state, ∅, none, caller.attach⟩ } : Server σ κ),
      .ok srv.store.nextPtr) := by
    simp only [stream, openSession, h.ref, hSlot, h.conn]
    rfl
  refine ⟨_, hOpen, Function.update_self _ _ _, Finmap.lookup_insert _, ?_, h.ttl, h.maxLife⟩
  exact ⟨ref, conn, Function.update_self _ _ _⟩

variable (codec draw) in
theorem Held.resumes (h : Held caller srv p id gen false st) (hGen : gen + 1 < 2 ^ 64) :
    ∃ srv', stream codec.toCodec caller draw srv (some (mint codec.toCodec id gen)) = (srv', .ok p) ∧
      Held caller srv' p id (gen + 1) true st := by
  obtain ⟨ref, conn, hSession⟩ := h.session
  have hAccepts : Accepts srv.store id gen caller.db caller.principal p := by
    have hNow : srv.store.now - srv.store.now = 0 := Int.sub_self _
    constructor
    · exact h.lookup
    all_goals rw [hSession]
    all_goals simp only [sessionAt, hNow]
    · exact h.ttl
    · exact h.maxLife
  have hResume := resume_of_accepts (verify_mint codec.toCodec id (by omega)) hAccepts
  refine ⟨{ srv with store := srv.store.setSession p ((srv.store.heap p).taken srv.store.now) }, ?_, h.keeps, h.lookup, ?_,
    h.ttl, h.maxLife⟩
  · simp only [stream, if_neg (Driver.mint_ne_empty codec id gen), hResume]
  · refine ⟨ref, conn, (Store.setSession_self _ _ _).trans ?_⟩
    rw [hSession, Session.taken]
    simp only [sessionAt, Nat.mod_eq_of_lt hGen]
    rfl

variable (codec) in
theorem Held.baton (h : Held caller srv p id gen true st) (st' : Hrana.Stream σ κ) :
    (srv.store.baton codec.toCodec p).2 = mint codec.toCodec id gen ∧
      Held caller { store := (srv.store.baton codec.toCodec p).1, streams := Function.update srv.streams p st' } p id gen
        false st' := by
  obtain ⟨ref, conn, hSession⟩ := h.session
  constructor
  · simp only [Store.baton, hSession]
    rfl
  · refine ⟨Function.update_self _ _ _, h.lookup, ⟨ref, conn, ?_⟩, h.ttl, h.maxLife⟩
    refine (Store.setSession_self _ _ _).trans ?_
    rw [hSession]
    rfl

theorem Held.close {busy : Bool} (h : Held caller srv p id gen busy st) : (srv.store.close p).sessions.lookup id = none := by
  obtain ⟨ref, conn, hSession⟩ := h.session
  have hId : (srv.store.heap p).id = id := by
    rw [hSession]
    rfl
  rw [Store.close, closeLocked_sessions, hId, Finmap.lookup_erase]

/-! ## A statement of a stream -/

variable (json b64 fl detail caps codec caller draw c) in
def pipelineOf (srv : Server σ κ) (body : json.Doc) : Server σ κ × Option (Reply json.Doc) :=
  handlePipeline json b64 fl detail caps codec.toCodec caller draw c srv body

theorem admits_of_not_capped {body : json.Doc}
    (h : isCapped (readPipeline json caps (pipelineOf json b64 fl detail caps codec caller draw c srv body).2) = false) :
    ¬ caps.maxBody < caps.size body := by
  intro hOver
  unfold pipelineOf handlePipeline at h
  rw [if_pos hOver] at h
  cases isCapped_readReply_bodyTooLarge.symm.trans h

theorem readPipeline_reply {results : List (Hrana.StreamResult F)} {hps : List Client.HpResult} {baton : Option String}
    (hReads : List.Forall₂ (Reads json b64 fl) results hps)
    (hFits : isCapped (readPipeline json caps
      (some ⟨200, json.encode (pipelineResp json baton (results.map (streamResultNode json b64 fl)))⟩)) = false) :
    readPipeline json caps
      (some ⟨200, json.encode (pipelineResp json baton (results.map (streamResultNode json b64 fl)))⟩) =
        .ok ⟨baton, hps⟩ := by
  have hRead := readReply_of_not_capped hFits rfl
  rw [decodePipeline_reply json b64 fl hReads baton] at hRead
  exact hRead

variable (json b64 fl detail c) in
/-- A request that finds or opens its session is answered by it, and hands it back. -/
theorem exec_of_held {srv' : Server σ κ} (cs : ClientStream) (hOpen : cs.closed = false)
    (hStream : stream codec.toCodec caller draw srv cs.baton = (srv', .ok p)) (hHeld : Held caller srv' p id gen true st)
    (s : Statement F)
    (hFits : isCapped (cs.exec json b64 fl caps (pipelineOf json b64 fl detail caps codec caller draw c) srv s).2.2 =
      false) :
    ∃ srv'', cs.exec json b64 fl caps (pipelineOf json b64 fl detail caps codec caller draw c) srv s =
        (srv'', ⟨some (mint codec.toCodec id gen), false⟩, seen fl (runOn fl c st.allowsAttach st.conn s).2) ∧
      Held caller srv'' p id gen false { st with conn := (runOn fl c st.allowsAttach st.conn s).1 } := by
  rw [isCapped_exec hOpen] at hFits
  have hAdmits := admits_of_not_capped hFits
  have hBody : json.unmarshal (pipelineReq b64 fl)
      (json.encode (pipelineBody json cs.baton [executeRequest json b64 fl s])) = .ok ⟨cs.baton, [executeOf fl s]⟩ := by
    apply pipelineReq_body json b64 fl [executeRequestDocument json b64 fl s]
    · simp only [values, executeRequest_value]
    · rw [List.mapM_cons, streamRequest_execute]
      rfl
  have hServe := serve_executes fl c (srv'.streams p) [s]
  rw [hHeld.keeps] at hServe
  obtain ⟨hBaton, hNext⟩ := hHeld.baton codec { st with conn := (runOn fl c st.allowsAttach st.conn s).1 }
  have hPost : pipelineOf json b64 fl detail caps codec caller draw c srv
      (json.encode (pipelineBody json cs.baton [executeRequest json b64 fl s])) =
        ({ store := (srv'.store.baton codec.toCodec p).1,
           streams := Function.update srv'.streams p { st with conn := (runOn fl c st.allowsAttach st.conn s).1 } },
          some ⟨200, json.encode (pipelineResp json (some (mint codec.toCodec id gen))
            ([executeResult (runOn fl c st.allowsAttach st.conn s).2].map (streamResultNode json b64 fl)))⟩) := by
    unfold pipelineOf handlePipeline
    rw [if_neg hAdmits, hBody]
    simp only [hStream, hHeld.keeps]
    rw [show [executeOf fl s] = [s].map (executeOf fl) from rfl, hServe]
    simp only [hBaton]
    rfl
  rw [hPost] at hFits
  have hRead := readPipeline_reply
    (.cons (reads_executeResult json b64 fl (runOn fl c st.allowsAttach st.conn s).2) .nil) hFits
  refine ⟨_, ?_, hNext⟩
  unfold ClientStream.exec
  rw [hOpen, hPost]
  simp only [Bool.false_eq_true, if_false, hRead, resultFromExecute_hpOf]

/-! ## The two endpoints -/

theorem doResult_errorEnvelope_not_ok (e : ApiError) (res : Result F) :
    doResult json b64 fl (json.encode (errorEnvelope json e)) ≠ .ok res := by
  obtain ⟨members, hValue⟩ : ∃ members, (apiErrorNode json e).value json.decode = some (.obj members) := by
    by_cases hCode : e.code = 0 <;> by_cases hExtended : e.extendedCode = 0 <;>
      simp [apiErrorNode, omitZero, hCode, hExtended, Node.value, memberValues]
  have hEnvelope : (errorEnvelope json e).value json.decode = some (.obj [("error", .obj members)]) :=
    Node.value_obj (by simp) (memberValues_cons hValue rfl)
  have hBody : queryBody (.obj [("error", .obj members)]) =
      (wireError (.obj members)).map fun e => ⟨[], [], 0, 0, false, some e⟩ := by
    cases hRead : wireError (.obj members) <;>
      simp [queryBody, fields, List.lookup_cons, List.lookup_nil, listMember, rawRows, intMember, boolMember, pointerMember,
        hRead, bind, Except.bind, pure, Except.pure, Except.map]
  rw [doResult, json.unmarshal_encode queryBody hEnvelope, hBody]
  cases wireError (.obj members) <;> simp [Except.map]

theorem readQuery_writeRunError_not_ok (err : RunError) (res : Result F) :
    readQuery json b64 fl caps (writeRunError json err) ≠ .ok res := by
  refine readReply_not_ok fun hStatus => ?_
  unfold writeRunError at hStatus ⊢
  split at hStatus
  · cases hStatus
  · cases hStatus
  · split at hStatus
    · cases hStatus
    · rename_i hOther
      rw [if_neg hOther]
      exact doResult_errorEnvelope_not_ok _ res

/-- A statement with its arguments is given to the engine alike by the native endpoint and by the
first request of a stream, with every argument as it is normalised, except for floats that JSON
cannot carry. It leaves the connection in the same state, and the client obtains a result from
one endpoint exactly if it obtains the same from the other, unless a cap is exceeded. -/
theorem query_agrees_with_exec (json : EnvelopeCodec) (b64 : Base64) (fl : FloatCodec F) (detail : DecodeErr → String)
    (caps : BodyCaps json.Doc) (codec : Driver.BatonCodec) (c : Hrana.PinnedConn F σ κ) (e : Executor F σ)
    (hRun : e.run = c.run) (hReady : Ready caller draw srv ref conn state id) (hAttach : caller.attach = false)
    (s : Statement F) (hSql : s.sql ≠ "") :
    let native := handleQuery json b64 fl detail caps e state (json.encode (encodeRequest json b64 fl s.sql s.args))
    let streamed := openStream.exec json b64 fl caps (pipelineOf json b64 fl detail caps codec caller draw c) srv s
    isCapped (readQuery json b64 fl caps native.2) = false → isCapped streamed.2.2 = false →
      native.1 = (c.run state ⟨s.sql, s.args.map fun a => delivered fl (fromGo fl a), [], false⟩).1 ∧
      (streamed.1.streams srv.store.nextPtr).conn = native.1 ∧
      ∀ res, readQuery json b64 fl caps native.2 = .ok res ↔ streamed.2.2 = .ok res := by
  intro native streamed hQueryFits hStreamFits
  obtain ⟨srv₁, hStream, hHeld⟩ := hReady.opens codec
  obtain ⟨srv₂, hExec, hIdle⟩ := exec_of_held json b64 fl detail c openStream rfl hStream hHeld s hStreamFits
  have hAdmits : ¬ caps.maxBody < caps.size (json.encode (encodeRequest json b64 fl s.sql s.args)) := by
    intro hOver
    have hRefused : native = (state, bodyTooLarge json) := if_pos hOver
    rw [hRefused] at hQueryFits
    cases isCapped_readReply_bodyTooLarge.symm.trans hQueryFits
  have hSame : runOn fl c caller.attach state s = c.run state (statementOf fl s) := by
    rw [hAttach]
    rfl
  have hNative := handleQuery_encodeRequest json b64 fl caps detail e state hSql hAdmits
  rw [hRun] at hNative
  change native = _ at hNative
  have hStreamed : streamed = _ := hExec
  clear_value native streamed
  subst hStreamed
  dsimp only at hIdle ⊢
  rw [hSame] at hIdle ⊢
  rw [hIdle.keeps]
  change native.1 = (c.run state (statementOf fl s)).1 ∧ _
  generalize c.run state (statementOf fl s) = ran at hNative ⊢
  obtain ⟨state', err | engineRes⟩ := ran
  · subst hNative
    refine ⟨rfl, rfl, fun res => ⟨?_, ?_⟩⟩
    · exact fun hOk => absurd hOk (readQuery_writeRunError_not_ok err res)
    · intro hOk
      cases hOk
  · subst hNative
    refine ⟨rfl, rfl, fun res => ?_⟩
    rw [readQuery, readReply_of_not_capped hQueryFits rfl, doResult_node]
    rfl

/-- A connection that counts the arguments it is given and returns them as a row; it times out on
an empty statement. -/
def echo : Hrana.PinnedConn (Option (Bool × Nat)) Nat Unit where
  run n s := (n + s.args.length, if s.sql = "" then .error .timedOut else .ok ⟨["a", "b"], [s.args], 0, 0, false⟩)
  autocommit _ := true
  execContext n _ := (n, .ok ())
  prepare n _ := (n, .ok ⟨[], [], true⟩)
  createSession n := (n, .ok ())
  attach n _ _ := (n, .ok ())
  changeset n _ := (n, .ok [])
  closeSession n _ := n

def reader : Open := ⟨"d", "alice", true, true⟩

def drawn : Draw Nat := ⟨.ok 0, .ok (0, 5, sampleId)⟩

def fresh : Server Nat Unit := ⟨newStore 0 0 0, fun _ => ⟨0, ∅, none, false⟩⟩

theorem fresh_ready : Ready reader drawn fresh 0 0 5 sampleId := ⟨rfl, rfl, by decide, by decide, by decide⟩

def twoArgs : Statement (Option (Bool × Nat)) := ⟨"VALUES (?, ?)", [.bool true, .float none]⟩

/-- No body has any bytes, and no cap is exceeded. -/
def roomy (D : Type) : BodyCaps D := ⟨fun _ => 0, 0, none, by decide⟩

theorem not_capped_roomy (srv : Server σ κ) (body : json.Doc) : isCapped (readPipeline json (roomy _)
    (pipelineOf json b64 fl detail (roomy _) codec caller draw c srv body).2) = false := by
  cases hReply : (pipelineOf json b64 fl detail (roomy _) codec caller draw c srv body).2 with
  | none => rfl
  | some reply => exact not_capped_of_uncapped rfl (handlePipeline_status c srv (Nat.lt_irrefl 0) hReply)

theorem twoArgs_agree :
    let native := handleQuery plainEnvelope stdEncoding integralFloats (fun _ => "") (roomy _) ⟨echo.run, fun n _ => (n, .ok [])⟩ 5
      (plainEnvelope.encode (encodeRequest plainEnvelope stdEncoding integralFloats twoArgs.sql twoArgs.args))
    let streamed := openStream.exec plainEnvelope stdEncoding integralFloats (roomy _)
      (pipelineOf plainEnvelope stdEncoding integralFloats (fun _ => "") (roomy _) Driver.plainBatons reader drawn echo) fresh
      twoArgs
    native.1 = (echo.run 5 ⟨"VALUES (?, ?)", [.int 1, .null], [], false⟩).1 ∧
      (streamed.1.streams fresh.store.nextPtr).conn = native.1 ∧
      ∀ res, readQuery plainEnvelope stdEncoding integralFloats (roomy _) native.2 = .ok res ↔ streamed.2.2 = .ok res := by
  refine query_agrees_with_exec plainEnvelope stdEncoding integralFloats (fun _ => "") (roomy _) Driver.plainBatons echo
    ⟨echo.run, fun n _ => (n, .ok [])⟩ rfl fresh_ready rfl twoArgs (by decide) ?_ ?_
  · exact not_capped_of_uncapped rfl (handleQuery_status _ _ (Nat.lt_irrefl 0))
  · rw [isCapped_exec rfl]
    exact not_capped_roomy _ _

/-! ## Batches -/

section Roomy

variable {S : Type} {post : S → json.Doc → S × Option (Reply json.Doc)}

end Roomy

end QuicSql.Exchange
