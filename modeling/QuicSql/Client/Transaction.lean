import QuicSql.Lib.Transition
import QuicSql.Session.System

/-!
# A driver transaction over an unreliable network

One connection of the SQL driver begins a transaction, runs statements in it and
commits or rolls back. Every call sends one pipeline request and waits; a request
that was sent may reach the server at any later time, any number of times or
never, and an answer may be lost. On the server the requests of the transaction
meet the sessions of all other clients, the reaper and kills.
-/

namespace QuicSql.Driver

open Lib Sessions

/-- The statements of the caller are numbered in the order of their calls. -/
inductive Sql where
  | begin
  | stmt (k : Nat)
  | commit
  | rollback
deriving DecidableEq, Repr

inductive Body where
  | execute (sql : Sql)
  | close
deriving DecidableEq, Repr

/-- A request of the connection: to the stateless endpoint, or to the pipeline with a
baton. The generation of the baton is history and not sent. -/
structure Request where
  stateless : Bool
  baton : Option String
  body : Body
  gen : Nat
deriving DecidableEq, Repr

/-- A status other than 200, or the pipeline response with the outcome of its one result. -/
inductive Reply where
  | refused
  | answered (baton : Option String) (ok : Bool)
deriving DecidableEq, Repr

/-- A response on its way back. The session and generation it came from are history. -/
structure Answer where
  request : Nat
  reply : Reply
  session : Ptr
  gen : Nat
deriving DecidableEq, Repr

structure Got where
  baton : Option String
  ok : Bool
  session : Ptr
  gen : Nat
deriving DecidableEq, Repr

structure Stream where
  baton : Option String
deriving DecidableEq, Repr

/-- Where the goroutine of the caller stands, with the request it waits for. `ended` is a
connection whose transaction was never begun or is given up. -/
inductive Phase where
  | fresh
  | beginning (s : Stream) (r : Nat)
  | dropping (r : Nat)
  | ended
  | ready
  | running (k : Nat) (r : Nat)
  | finishing (sql : Sql) (s : Stream) (r : Nat)
  | closing (sql : Sql) (ok : Bool) (r : Nat)
  | finished (sql : Sql) (ok : Bool)
deriving DecidableEq, Repr

def Phase.waits : Phase → Option Nat
  | .beginning _ r | .dropping r | .running _ r | .finishing _ _ r | .closing _ _ r => some r
  | _ => none

/-- The connection, with `tx` as its field, the number of statements called so far and
what each call returned (`true` for a nil error). The last two fields are history: the
session that answered BEGIN, and the generation of the stream's baton. -/
structure Client where
  tx : Option Stream
  phase : Phase
  next : Nat
  returned : List (Nat × Bool)
  thread : Option Ptr
  gen : Nat
deriving DecidableEq, Repr

/-- A request of the transaction inside `handlePipeline`, after `stream`: its session, and
the outcome of its statement once that ran. -/
structure Job where
  request : Nat
  ptr : Ptr
  ran : Option Bool
  active : Bool
deriving DecidableEq, Repr

structure Exec where
  -- The stateless endpoint has none.
  session : Option Ptr
  sql : Sql
  ok : Bool
  request : Nat
  gen : Nat
deriving DecidableEq, Repr

/-- The whole system; `owned` lists the sessions that requests of the transaction opened. -/
structure State where
  store : Store
  owned : List Ptr
  jobs : List Job
  sent : List Request
  answers : List Answer
  log : List Exec
  client : Client

/-- The baton encoding, which gives no empty text for a token. -/
structure BatonCodec extends Codec where
  encode_ne_empty : ∀ token, token ≠ [] → encode token ≠ ""

structure Config where
  codec : BatonCodec
  opening : Open

/-! ## The driver -/

namespace State

def send (d : State) (stateless : Bool) (baton : Option String) (body : Body) (phase : Nat → Phase) : State :=
  { d with
    sent := d.sent ++ [⟨stateless, baton, body, d.client.gen⟩]
    client := { d.client with phase := phase d.sent.length } }

def enter (d : State) (phase : Phase) : State := { d with client := { d.client with phase := phase } }

/-- `Stream.Close`: nothing to do without a baton. -/
def closeStream (d : State) (baton : Option String) (noop : Phase) (phase : Nat → Phase) : State :=
  match baton with
  | none => d.enter noop
  | some b => d.send false (some b) .close phase

/-- `conn.begin`, up to the request of `Stream.Exec`. -/
def begin (d : State) : Option State :=
  match d.client.phase, d.client.tx with
  | .fresh, none => some (d.send false none (.execute .begin) (.beginning ⟨none⟩))
  | _, _ => none

/-- `conn.run`: the stream of the transaction, else the stateless endpoint. -/
def exec (d : State) : Option State :=
  let k := d.client.next
  match d.client.phase with
  | .ready =>
    let e : State := { d with client := { d.client with next := k + 1 } }
    match d.client.tx with
    | some s => some (e.send false s.baton (.execute (.stmt k)) (.running k))
    | none => some (e.send true none (.execute (.stmt k)) (.running k))
  | _ => none

/-- `tx.finish`, up to the request of `Stream.Exec`. -/
def finish (d : State) (sql : Sql) : Option State :=
  match d.client.phase with
  | .ready =>
    match d.client.tx with
    | none => some (d.enter (.finished sql false))
    | some s =>
      let e : State := { d with client := { d.client with tx := none } }
      some (e.send false s.baton (.execute sql) (.finishing sql s))
  | _ => none

/-- `conn.Close` with the transaction still open. -/
def hangUp (d : State) : Option State :=
  match d.client.phase, d.client.tx with
  | .ready, some s =>
    let e : State := { d with client := { d.client with tx := none } }
    some (e.closeStream s.baton .ended .dropping)
  | _, _ => none

def took (d : State) (got : Got) : State :=
  { d with client := { d.client with thread := some got.session, gen := got.gen } }

def returns (d : State) (k : Nat) (ok : Bool) : State :=
  { d with client := { d.client with phase := .ready, returned := d.client.returned ++ [(k, ok)] } }

/-- The call goes on after its request: with the response, or with an error of the transport
or a status other than 200. -/
def settle (d : State) : Option Got → Option State
  | none =>
    match d.client.phase with
    | .beginning s _ => some (d.closeStream s.baton .ended .dropping)
    | .dropping _ => some (d.enter .ended)
    | .running k _ => some (d.returns k false)
    | .finishing sql s _ => some (d.closeStream s.baton (.finished sql false) (.closing sql false))
    | .closing sql _ _ => some (d.enter (.finished sql false))
    | _ => none
  | some got =>
    match d.client.phase with
    | .beginning _ _ =>
      let e := d.took got
      if got.ok then some { e with client := { e.client with tx := some ⟨got.baton⟩, phase := .ready } }
      else some (e.closeStream got.baton .ended .dropping)
    | .dropping _ => some (d.enter .ended)
    | .running k _ =>
      match d.client.tx with
      | some _ =>
        let e := d.took got
        some (returns { e with client := { e.client with tx := some ⟨got.baton⟩ } } k got.ok)
      | none => some (d.returns k got.ok)
    | .finishing sql _ _ =>
      some ((d.took got).closeStream got.baton (.finished sql got.ok) (.closing sql got.ok))
    | .closing sql ok _ => some (d.enter (.finished sql ok))
    | _ => none

/-- The response to the request that the call waits for; its result may fail to decode. -/
def receive (d : State) (n : Nat) (fine : Bool) : Option State :=
  match d.answers[n]? with
  | none => none
  | some a =>
    if d.client.phase.waits = some a.request then
      match a.reply with
      | .refused => d.settle none
      | .answered baton ok => d.settle (some ⟨baton, ok && fine, a.session, a.gen⟩)
    else none

/-! ## The server -/

def answer (d : State) (r : Nat) (reply : Reply) (session : Ptr) (gen : Nat) : State :=
  { d with answers := d.answers ++ [⟨r, reply, session, gen⟩] }

/-- `Handler.stream`: a request without a baton opens a session, any other one resumes. -/
def stream (cfg : Config) (d : State) (r : Nat) (baton : String) (id : SessionId) : State :=
  let o := cfg.opening
  if baton = "" then
    match d.store.reserveSlot o.db with
    | .error _ => d.answer r .refused 0 0
    | .ok st =>
      { d with
        store := st.insertSession (o.session st.nextPtr st.nextPtr id st.now)
        owned := d.owned ++ [st.nextPtr]
        jobs := d.jobs ++ [⟨r, st.nextPtr, none, true⟩] }
  else
    match d.store.resume cfg.codec.toCodec baton o.db o.principal with
    | (st, .error _) => answer { d with store := st } r .refused 0 0
    | (st, .ok p) => { d with store := st, jobs := d.jobs ++ [⟨r, p, none, true⟩] }

def deliver (cfg : Config) (d : State) (r : Nat) (id : SessionId) : Option State :=
  match d.sent[r]? with
  | none => none
  | some q => if q.stateless then none else some (d.stream cfg r (q.baton.getD "") id)

/-- The stateless endpoint runs the statement on a connection of its own. -/
def query (d : State) (r : Nat) (ok : Bool) : Option State :=
  match d.sent[r]? with
  | none => none
  | some q =>
    match q.stateless, q.body with
    | true, .execute sql =>
      let e : State := { d with log := d.log ++ [⟨none, sql, ok, r, 0⟩] }
      some (e.answer r (.answered none ok) 0 0)
    | _, _ => none

def execute (d : State) (j : Nat) (ok : Bool) : Option State :=
  match d.jobs[j]? with
  | none => none
  | some job =>
    match job.active, job.ran, (d.sent[job.request]?).map Request.body with
    | true, none, some (.execute sql) =>
      -- runStreamRequest
      some { d with
        jobs := d.jobs.set j { job with ran := some ok }
        log := d.log ++ [⟨some job.ptr, sql, ok, job.request, (d.store.heap job.ptr).gen⟩] }
    | _, _, _ => none

/-- The end of `handlePipeline`: the session is closed after a close request, and handed
back for its next baton otherwise. -/
def reply (cfg : Config) (d : State) (j : Nat) : Option State :=
  match d.jobs[j]? with
  | none => none
  | some job =>
    let e : State := { d with jobs := d.jobs.set j { job with active := false } }
    let gen := (d.store.heap job.ptr).gen
    match job.active, (d.sent[job.request]?).map Request.body, job.ran with
    | true, some .close, _ =>
      some (answer { e with store := d.store.close job.ptr } job.request (.answered none true) job.ptr gen)
    | true, some (.execute _), some ok =>
      let (st, b) := d.store.baton cfg.codec.toCodec job.ptr
      some (answer { e with store := st } job.request (.answered (some b) ok) job.ptr gen)
    | _, _, _ => none

/-- A handler that does not reach its end closes the session and answers nothing. -/
def abort (d : State) (j : Nat) : Option State :=
  match d.jobs[j]? with
  | none => none
  | some job =>
    if job.active then
      some { d with
        store := d.store.close job.ptr
        jobs := d.jobs.set j { job with active := false } }
    else none

end State

inductive Other where
  | insert (s : Session)
  | slots (db : DbName) (n : Int)
  | resume (baton db principal : String)
  | baton (p : Ptr)
  | close (p : Ptr)
  | kill (idStr : String)
  | reap (order : List SessionId)
  | closeAll (order : List SessionId)
  | tick (elapsed : Nat)
deriving DecidableEq, Repr

def Other.apply (codec : Codec) (st : Store) : Other → Store
  | .insert s => st.insertSession s
  | .slots db n => st.addSlot db n
  | .resume token db principal => (st.resume codec token db principal).1
  | .baton p => (st.baton codec p).1
  | .close p => st.close p
  | .kill idStr => (st.kill codec idStr).1
  | .reap order => st.reap order
  | .closeAll order => st.closeAll order
  | .tick elapsed => { st with now := st.now + elapsed }

inductive Action where
  | begin
  | exec
  | commit
  | rollback
  | hangUp
  | receive (n : Nat) (fine : Bool)
  | lose
  | deliver (r : Nat) (id : SessionId)
  | reject (r : Nat)
  | query (r : Nat) (ok : Bool)
  | execute (j : Nat) (ok : Bool)
  | reply (j : Nat)
  | abort (j : Nat)
  | other (o : Other)
deriving DecidableEq, Repr

/-- A request refused before `stream` (method, authorization, limits, body) is `reject`; a
call that loses its request or its response is `lose`. -/
def step (cfg : Config) (d : State) : Action → Option State
  | .begin => d.begin
  | .exec => d.exec
  | .commit => d.finish .commit
  | .rollback => d.finish .rollback
  | .hangUp => d.hangUp
  | .receive n fine => d.receive n fine
  | .lose => d.settle none
  | .deliver r id => d.deliver cfg r id
  | .reject r => if r < d.sent.length then some (d.answer r .refused 0 0) else none
  | .query r ok => d.query r ok
  | .execute j ok => d.execute j ok
  | .reply j => d.reply cfg j
  | .abort j => d.abort j
  | .other o => some { d with store := o.apply cfg.codec.toCodec d.store }

def init (ttl maxLife : Time) (max : Int) : State where
  store := newStore ttl maxLife max
  owned := []
  jobs := []
  sent := []
  answers := []
  log := []
  client := ⟨none, .fresh, 0, [], none, 0⟩

/-! ## The environment -/

def Fresh (st : Store) (id : SessionId) : Prop := ∀ p, p < st.nextPtr → (st.heap p).id ≠ id

instance (st : Store) (id : SessionId) : Decidable (Fresh st id) :=
  inferInstanceAs (Decidable (∀ p, p < st.nextPtr → (st.heap p).id ≠ id))

def State.foreign (codec : Codec) (d : State) (baton : String) : Bool :=
  match verify codec baton with
  | .ok (id, _) => d.owned.all (fun p => (d.store.heap p).id ≠ id)
  | .error _ => true

def State.batonOf (d : State) (r : Nat) : String := ((d.sent[r]?).bind Request.baton).getD ""

def State.genBelow (cfg : Config) (d : State) (r : Nat) : Bool :=
  match (d.store.resume cfg.codec.toCodec (d.batonOf r) cfg.opening.db cfg.opening.principal).2 with
  | .ok p => (d.store.heap p).gen + 1 < 2 ^ 64
  | .error _ => true

/-- What is assumed of the environment: session ids are never reused, generations stay
below the machine bound, and nobody else presents or ends a session of the transaction,
since only its answers carry the batons. -/
def Unforged (cfg : Config) (d : State) : Action → Prop
  | .deliver r id => (d.batonOf r = "" → Fresh d.store id) ∧ d.genBelow cfg r = true
  | .other (.insert s) => Fresh d.store s.id
  | .other (.resume baton _ _) => d.foreign cfg.codec.toCodec baton = true
  | .other (.baton p) | .other (.close p) => p ∉ d.owned
  | _ => True

instance (cfg : Config) (d : State) : ∀ act, Decidable (Unforged cfg d act)
  | .deliver r id =>
    inferInstanceAs (Decidable ((d.batonOf r = "" → Fresh d.store id) ∧ d.genBelow cfg r = true))
  | .other (.insert s) => inferInstanceAs (Decidable (Fresh d.store s.id))
  | .other (.resume baton _ _) => inferInstanceAs (Decidable (d.foreign cfg.codec.toCodec baton = true))
  | .other (.baton p) | .other (.close p) => inferInstanceAs (Decidable (p ∉ d.owned))
  | .other (.slots _ _) | .other (.kill _) | .other (.reap _) | .other (.closeAll _) | .other (.tick _)
  | .begin | .exec | .commit | .rollback | .hangUp | .receive _ _ | .lose | .reject _ | .query _ _ | .execute _ _
  | .reply _ | .abort _ => inferInstanceAs (Decidable True)

end QuicSql.Driver
