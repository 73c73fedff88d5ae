import QuicSql.Lib.Transition
import Mathlib.Data.Finmap
import Mathlib.Logic.Function.Basic

/-!
# The database registry

One open handle per logical database, opened lazily and counted while in use.
Every section under the registry mutex is one step; `backend.Open`, the signal
on an entry's `ready` channel, the close hook and `Handle.Close` are steps of
their own outside the mutex. Entries are heap objects, since a waiting `Get`
and a release closure keep pointing at an entry after it left the map.
-/

namespace QuicSql

namespace Registry

abbrev DbName := String
abbrev EntryId := Nat
abbrev HandleId := Nat

abbrev Time := Int

inductive Err where
  | unknownDB (name : DbName)
  | reserved
  | busy
  | exists (name : DbName)
  | open (detail : String)
  | ctx
deriving DecidableEq, Repr

structure Backend where
  kind : String
  readOnly : Bool
deriving DecidableEq, Repr

structure DB where
  name : DbName
  kind : String
  readOnly : Bool
  handle : HandleId
deriving DecidableEq, Repr

structure Entry where
  name : DbName
  be : Option Backend
  ready : Bool
  opening : Bool
  db : Option DB
  err : Option Err
  refs : Int
  last : Time
  reserved : Bool
deriving DecidableEq, Repr

/-- How far a handle has come: usable, taken out of the map for closing,
inside `Handle.Close`, or closed. -/
inductive HandleStatus where
  | open
  | detached
  | closing
  | closed
deriving DecidableEq, Repr

structure Handle where
  name : DbName
  status : HandleStatus
deriving DecidableEq, Repr

def Handle.advance (handle : Handle) (status : HandleStatus) : Handle :=
  if handle.status = .closed then handle else { handle with status := status }

end Registry

open Registry in
/-- The registry with the entries, handles and clock its calls share. -/
structure Registry where
  entries : Finmap (fun _ : DbName => EntryId)
  backends : Finmap (fun _ : DbName => Backend)
  onClose : Bool
  heap : EntryId → Entry
  nextEntry : EntryId
  handles : HandleId → Handle
  nextHandle : HandleId
  now : Registry.Time

namespace Registry

open Lib

def new (backends : Finmap (fun _ : DbName => Backend)) : Registry where
  entries := ∅
  backends := backends
  onClose := false
  heap := fun _ => ⟨"", none, false, false, none, none, 0, 0, false⟩
  nextEntry := 0
  handles := fun _ => ⟨"", .closed⟩
  nextHandle := 0
  now := 0

def setEntry (r : Registry) (e : EntryId) (entry : Entry) : Registry :=
  { r with heap := Function.update r.heap e entry }

def setStatus (r : Registry) (h : HandleId) (status : HandleStatus) : Registry :=
  { r with handles := Function.update r.handles h ((r.handles h).advance status) }

/-- Take an entry off the map; its handle, if any, is now the caller's to close. -/
def detach (r : Registry) (name : DbName) (e : EntryId) : Registry :=
  let r' := { r with entries := r.entries.erase name }
  match (r.heap e).db with
  | some db => r'.setStatus db.handle .detached
  | none => r'

def install (r : Registry) (name : DbName) (entry : Entry) : Registry :=
  { r with
    entries := r.entries.insert name r.nextEntry
    heap := Function.update r.heap r.nextEntry entry
    nextEntry := r.nextEntry + 1 }

def opener (name : DbName) (be : Backend) : Entry where
  name := name
  be := some be
  ready := false
  opening := true
  db := none
  err := none
  refs := 1
  last := 0
  reserved := false

def placeholder (name : DbName) : Entry where
  name := name
  be := none
  ready := true
  opening := false
  db := none
  err := none
  refs := 0
  last := 0
  reserved := true

def openHandle (r : Registry) (name : DbName) : Registry :=
  { r with
    handles := Function.update r.handles r.nextHandle ⟨name, .open⟩
    nextHandle := r.nextHandle + 1 }

def dropPoisoned (r : Registry) (name : DbName) (e : EntryId) (err : Err) : Registry :=
  { r.setEntry e { r.heap e with opening := false, err := some err, refs := 0 } with
    entries := r.entries.erase name }

def sharedDB (r : Registry) (name : DbName) (e : EntryId) (h : HandleId) : DB where
  name := name
  kind := ((r.heap e).be.map Backend.kind).getD ""
  readOnly := ((r.heap e).be.map Backend.readOnly).getD false
  handle := h

def publish (r : Registry) (name : DbName) (e : EntryId) (h : HandleId) : Registry :=
  r.setEntry e { r.heap e with opening := false, db := some (r.sharedDB name e h), last := r.now }

def signalReady (r : Registry) (e : EntryId) : Registry :=
  r.setEntry e { r.heap e with ready := true }

def acquire (r : Registry) (e : EntryId) : Registry :=
  r.setEntry e { r.heap e with refs := (r.heap e).refs + 1, last := r.now }

def releaseRef (r : Registry) (e : EntryId) : Registry :=
  r.setEntry e { r.heap e with refs := (r.heap e).refs - 1, last := r.now }

def inUse (entry : Entry) : Bool := entry.opening || decide (0 < entry.refs) || entry.reserved

def detachIdleLocked (r : Registry) (name : DbName) : Except Err (Registry × Option DB) :=
  match r.entries.lookup name with
  | none => .ok (r, none)
  | some e =>
    if inUse (r.heap e) then .error .busy
    else .ok (r.detach name e, (r.heap e).db)

/-- Reserve's section: detach the idle handle and put the placeholder in its place. -/
def reserve (r : Registry) (name : DbName) : Except Err (Registry × Option DB) :=
  match r.backends.lookup name with
  | none => .error (.unknownDB name)
  | some _ =>
    match r.detachIdleLocked name with
    | .error err => .error err
    | .ok (r', db) => .ok (r'.install name (placeholder name), db)

def releaseReservation (r : Registry) (name : DbName) : Registry :=
  { r with entries := r.entries.erase name }

def add (r : Registry) (name : DbName) (be : Backend) : Except Err Registry :=
  match r.backends.lookup name with
  | some _ => .error (.exists name)
  | none => .ok { r with backends := r.backends.insert name be }

def remove (r : Registry) (name : DbName) : Except Err (Registry × Option DB) :=
  match r.backends.lookup name with
  | none => .error (.unknownDB name)
  | some _ =>
    match r.detachIdleLocked name with
    | .error err => .error err
    | .ok (r', db) => .ok ({ r' with backends := r'.backends.erase name }, db)

def reapOne (idleTTL now : Time) (acc : Registry × List DB) (name : DbName) : Registry × List DB :=
  match acc.1.entries.lookup name with
  | none => acc
  | some e =>
    match (acc.1.heap e).db with
    | none => acc
    | some db =>
      if inUse (acc.1.heap e) || decide (now - (acc.1.heap e).last < idleTTL) then acc
      else (acc.1.detach name e, acc.2 ++ [db])

/-- ReapIdle's section; `order` is the order in which the map is ranged over. -/
def reapIdle (r : Registry) (idleTTL now : Time) (order : List DbName) : Registry × List DB :=
  order.foldl (reapOne idleTTL now) (r, [])

/-- What a call does once the handles it detached are closed. -/
inductive CloseFor where
  | reserve (name : DbName)
  | remove
  | reap (count : Nat)
deriving DecidableEq, Repr

inductive CloseStage where
  | readHook
  | fireHook (hook : Bool)
  | enterClose
  | inClose
deriving DecidableEq, Repr

/-- Where a call stands, with its local variables. -/
inductive Call where
  | get (name : DbName)
  | opening (name : DbName) (e : EntryId)
  | opened (name : DbName) (e : EntryId) (result : Except String HandleId)
  | signal (name : DbName) (e : EntryId) (result : Except Err DB)
  | waiting (name : DbName) (e : EntryId)
  | relock (name : DbName) (e : EntryId)
  | returning (name : DbName) (e : EntryId) (db : Option DB)
  | holding (name : DbName) (e : EntryId) (db : Option DB)
  | released (name : DbName) (e : EntryId)
  | reserve (name : DbName)
  | reserved (name : DbName)
  | add (name : DbName) (be : Backend)
  | remove (name : DbName)
  | reapIdle (idleTTL : Time)
  | reapLock (idleTTL now : Time)
  | closing (purpose : CloseFor) (todo : List DB) (stage : CloseStage)
  | failed (err : Err)
  | done (count : Nat)

structure State where
  reg : Registry
  calls : List Call

inductive Op where
  | get (name : DbName)
  | reserve (name : DbName)
  | add (name : DbName) (be : Backend)
  | remove (name : DbName)
  | reapIdle (idleTTL : Time)
deriving DecidableEq, Repr

def Op.start : Op → Call
  | .get name => .get name
  | .reserve name => .reserve name
  | .add name be => .add name be
  | .remove name => .remove name
  | .reapIdle idleTTL => .reapIdle idleTTL

inductive Choice where
  | next
  | openOk
  | openFail (detail : String)
  | ctxDone
  | range (order : List DbName)
  | release
deriving DecidableEq, Repr

def getLocked (r : Registry) (name : DbName) : Registry × Call :=
  match r.entries.lookup name with
  | some e => (r, .waiting name e)
  | none =>
    match r.backends.lookup name with
    | none => (r, .failed (.unknownDB name))
    | some be => (r.install name (opener name be), .opening name r.nextEntry)

/-- Get's section after the wait, with the entry it waited for. -/
def getRelocked (r : Registry) (name : DbName) (e : EntryId) : Registry × Call :=
  if r.entries.lookup name ≠ some e then (r, .get name)
  else
    match (r.heap e).err with
    | some err => (r, .failed err)
    | none =>
      if (r.heap e).reserved then (r, .failed .reserved)
      else (r.acquire e, .returning name e (r.heap e).db)

def closeDone : CloseFor → Call
  | .reserve name => .reserved name
  | .remove => .done 0
  | .reap count => .done count

def closeStep (r : Registry) (purpose : CloseFor) : List DB → CloseStage → Registry × Call
  | [], _ => (r, closeDone purpose)
  | db :: rest, .readHook => (r, .closing purpose (db :: rest) (.fireHook r.onClose))
  | db :: rest, .fireHook _ => (r, .closing purpose (db :: rest) .enterClose)
  | db :: rest, .enterClose => (r.setStatus db.handle .closing, .closing purpose (db :: rest) .inClose)
  | db :: rest, .inClose => (r.setStatus db.handle .closed, .closing purpose rest .readHook)

def callStep (r : Registry) : Call → Choice → Option (Registry × Call)
  | .get name, .next => some (getLocked r name)
  | .opening name e, .openOk => some (r.openHandle name, .opened name e (.ok r.nextHandle))
  | .opening name e, .openFail detail => some (r, .opened name e (.error detail))
  | .opened name e (.error detail), .next =>
    some (r.dropPoisoned name e (.open detail), .signal name e (.error (.open detail)))
  | .opened name e (.ok h), .next =>
    some (r.publish name e h, .signal name e (.ok (r.sharedDB name e h)))
  | .signal _ e (.error err), .next => some (r.signalReady e, .failed err)
  | .signal name e (.ok db), .next => some (r.signalReady e, .returning name e (some db))
  | .waiting name e, .next => if (r.heap e).ready then some (r, .relock name e) else none
  | .waiting _ _, .ctxDone => some (r, .failed .ctx)
  | .relock name e, .next => some (getRelocked r name e)
  | .returning name e db, .next => some (r, .holding name e db)
  | .holding name e _, .release => some (r.releaseRef e, .released name e)
  | .released name e, .release => some (r, .released name e)
  | .reserve name, .next =>
    match r.reserve name with
    | .error err => some (r, .failed err)
    | .ok (r', db) => some (r', .closing (.reserve name) db.toList .readHook)
  | .reserved name, .release => some (r.releaseReservation name, .done 0)
  | .add name be, .next =>
    match r.add name be with
    | .error err => some (r, .failed err)
    | .ok r' => some (r', .done 0)
  | .remove name, .next =>
    match r.remove name with
    | .error err => some (r, .failed err)
    | .ok (r', db) => some (r', .closing .remove db.toList .readHook)
  | .reapIdle idleTTL, .next =>
    if idleTTL ≤ 0 then some (r, .done 0) else some (r, .reapLock idleTTL r.now)
  | .reapLock idleTTL now, .range order =>
    if order.Nodup ∧ order.toFinset = r.entries.keys then
      let (r', toClose) := r.reapIdle idleTTL now order
      some (r', .closing (.reap toClose.length) toClose .readHook)
    else none
  | .closing purpose todo stage, .next => some (closeStep r purpose todo stage)
  | _, _ => none

inductive Action where
  | call (op : Op)
  | step (i : Nat) (choice : Choice)
  | tick (elapsed : Nat)
deriving DecidableEq, Repr

def step (s : State) : Action → Option State
  | .call op => some { s with calls := s.calls ++ [op.start] }
  | .step i choice =>
    match s.calls[i]? with
    | none => none
    | some c =>
      match callStep s.reg c choice with
      | none => none
      | some (r, c') => some { reg := r, calls := s.calls.set i c' }
  | .tick elapsed => some { s with reg := { s.reg with now := s.reg.now + elapsed } }

def init (backends : Finmap (fun _ : DbName => Backend)) : State where
  reg := new backends
  calls := []

end Registry

end QuicSql
