import QuicSql.Lib.Transition
import QuicSql.Session.Store

/-!
# Requests and goroutines around the session store

`Handler.stream` obtains a registry reference, opens a session through the
stages of `Store.Open` and hands the reference over only when that succeeds; a
request that presents a baton resumes. The teardown goroutines of `closeLocked`
run beside them. What the request does on the connection between is not seen
by the store, except that it may peek its baton, and that it ends with `Baton`
or `Close`.
-/

namespace QuicSql.Sessions

open Lib

/-- The arguments with which `Handler.stream` opens a new session. -/
structure Open where
  db : DbName
  principal : String
  readOnly : Bool
  allowAttach : Bool
deriving DecidableEq, Repr

/-- A read-only session never enables ATTACH. -/
def Open.attach (o : Open) : Bool := o.allowAttach && !o.readOnly

def Open.session (o : Open) (ref : Ref) (conn : ConnId) (id : SessionId) (now : Time) : Session where
  id := id
  gen := 1
  conn := conn
  release := ref
  dbName := o.db
  principal := o.principal
  readOnly := o.readOnly
  attach := o.attach
  created := now
  lastUsed := now
  busy := true

inductive Call where
  | stream (o : Open)
  | slot (o : Open) (ref : Ref)
  | pin (o : Open) (ref : Ref)
  | mode (o : Open) (ref : Ref) (conn : ConnId)
  | register (o : Open) (ref : Ref) (conn : ConnId)
  | giveBack (o : Open) (ref : Ref) (err : Err)
  | dropRef (ref : Ref) (err : Err)
  | resume (baton db principal : String)
  | serving (p : Ptr)
  | answered (p : Ptr)
  | closed (p : Ptr)
  | kill (idStr : String)
  | killed (result : KillResult)
  | reap
  | closeAll
  | waitClosing
  | failed (err : Err)
  | done
deriving DecidableEq, Repr

/-- A successful Resume: the baton's content, what was presented with it, and the
session as it was found. -/
structure Resumed where
  id : SessionId
  gen : Nat
  db : String
  principal : String
  session : Session
  now : Time
deriving DecidableEq, Repr

/-- The store with its calls. The last three fields record history: the references
obtained so far, how often each release closure was called, and the resumes. -/
structure State where
  store : Store
  calls : List Call
  nextRef : Ref
  released : Ref → Nat
  resumes : List Resumed

inductive Op where
  | stream (o : Open)
  | resume (baton db principal : String)
  | kill (idStr : String)
  | reap
  | closeAll
deriving DecidableEq, Repr

def Op.start : Op → Call
  | .stream o => .stream o
  | .resume baton db principal => .resume baton db principal
  | .kill idStr => .kill idStr
  | .reap => .reap
  | .closeAll => .closeAll

inductive Choice where
  | next
  | pinned (conn : ConnId)
  | generated (id : SessionId)
  | fail (detail : String)
  | range (order : List SessionId)
  | peek
  | baton
  | close
deriving DecidableEq, Repr

def State.setRelease (s : State) (ref : Ref) : State :=
  { s with released := Function.update s.released ref (s.released ref + 1) }

def resumed (codec : Codec) (st : Store) (baton db principal : String) (p : Ptr) : List Resumed :=
  match verify codec baton with
  | .error _ => []
  | .ok (id, gen) => [⟨id, gen, db, principal, st.heap p, st.now⟩]

def resumeStep (codec : Codec) (s : State) (baton db principal : String) : State × Call :=
  match s.store.resume codec baton db principal with
  | (st, .error err) => ({ s with store := st }, .failed err)
  | (st, .ok p) =>
    ({ s with store := st, resumes := s.resumes ++ resumed codec s.store baton db principal p },
      .serving p)

/-- The next atomic step of one call. A failed mode change or a failed id generation
also returns the pinned connection, which the store does not see. -/
def callStep (codec : Codec) (s : State) : Call → Choice → Option (State × Call)
  | .stream o, .next => some ({ s with nextRef := s.nextRef + 1 }, .slot o s.nextRef)
  | .stream _, .fail detail => some (s, .failed (.get detail))
  | .slot o ref, .next =>
    match s.store.reserveSlot o.db with
    | .error err => some (s, .dropRef ref err)
    | .ok st => some ({ s with store := st }, .pin o ref)
  | .pin o ref, .pinned conn => some (s, .mode o ref conn)
  | .pin o ref, .fail detail => some (s, .giveBack o ref (.pin detail))
  | .mode o ref conn, .next => some (s, .register o ref conn)
  | .mode o ref _, .fail detail =>
    -- Only SetConnMode and SetConnAttach can fail; a plain writer session runs neither.
    if o.readOnly || o.attach then some (s, .giveBack o ref (.mode detail)) else none
  | .register o ref conn, .generated id =>
    some ({ s with store := s.store.insertSession (o.session ref conn id s.store.now) },
      .serving s.store.nextPtr)
  | .register o ref _, .fail detail =>
    some ({ s with store := s.store.addSlot o.db (-1) }, .dropRef ref (.rand detail))
  | .giveBack o ref err, .next =>
    some ({ s with store := s.store.releaseSlot o.db }, .dropRef ref err)
  | .dropRef ref err, .next => some (s.setRelease ref, .failed err)
  | .resume baton db principal, .next => some (resumeStep codec s baton db principal)
  | .serving p, .peek => some (s, .serving p)
  | .serving p, .baton => some ({ s with store := (s.store.baton codec p).1 }, .answered p)
  | .serving p, .close => some ({ s with store := s.store.close p }, .closed p)
  | .answered p, .close => some ({ s with store := s.store.close p }, .closed p)
  | .closed p, .close => some ({ s with store := s.store.close p }, .closed p)
  | .kill idStr, .next =>
    let (st, result) := s.store.kill codec idStr
    some ({ s with store := st }, .killed result)
  | .reap, .range order =>
    if order.Nodup ∧ order.toFinset = s.store.sessions.keys then
      some ({ s with store := s.store.reap order }, .done)
    else none
  | .closeAll, .range order =>
    if order.Nodup ∧ order.toFinset = s.store.sessions.keys then
      some ({ s with store := s.store.closeAll order }, .waitClosing)
    else none
  | .waitClosing, .next => if s.store.closing = [] then some (s, .done) else none
  | _, _ => none

inductive Action where
  | call (op : Op)
  | step (i : Nat) (choice : Choice)
  | teardown (i : Nat)
  | tick (elapsed : Nat)
deriving DecidableEq, Repr

/-- A teardown goroutine runs to its end: the connection goes back, then the registry
reference is released. -/
def teardownStep (s : State) (i : Nat) : Option State :=
  match s.store.closing[i]? with
  | none => none
  | some t =>
    some (State.setRelease { s with store := { s.store with closing := s.store.closing.eraseIdx i } }
      t.release)

def step (codec : Codec) (s : State) : Action → Option State
  | .call op => some { s with calls := s.calls ++ [op.start] }
  | .step i choice =>
    match s.calls[i]? with
    | none => none
    | some c =>
      match callStep codec s c choice with
      | none => none
      | some (t, c') => some { t with calls := s.calls.set i c' }
  | .teardown i => teardownStep s i
  | .tick elapsed => some { s with store := { s.store with now := s.store.now + elapsed } }

def init (ttl maxLife : Time) (max : Int) : State where
  store := newStore ttl maxLife max
  calls := []
  nextRef := 0
  released := fun _ => 0
  resumes := []

end QuicSql.Sessions
