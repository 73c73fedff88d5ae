import QuicSql.Registry.Ownership
import QuicSql.Wire.Value

/-!
# The cache of blob stores

A store is opened with options by a provision and kept in a cache keyed by the open handle of
the database. The hook of the registry drops the keys of a handle before it is closed; the
next writer opens the store again, without options. The requests run here against the whole
registry, each through its own `Get`.
-/

namespace QuicSql.Httpapi.BlobStores

open Lib Registry

inductive Compression where
  | fastest
  | fast
  | default
  | better
  | best
deriving DecidableEq, Repr

inductive BlobOption where
  | chunkSize (n : Int64)
  | compression (level : Compression)
  | dedup
deriving DecidableEq, Repr

def compressionOf : String → Option Compression
  | "fastest" => some .fastest
  | "fast" => some .fast
  | "default" => some .default
  | "better" => some .better
  | "best" => some .best
  | _ => none

/-- The options that the query parameters of a provision stand for. -/
def blobOpts (chunk compress dedup : String) : List BlobOption :=
  ((Wire.parseInt chunk.toList).filter (fun n => 0 < n)).toList.map .chunkSize ++
    (compressionOf compress).toList.map .compression ++ if dedup = "1" then [.dedup] else []

inductive Endpoint where
  | provision (opts : List BlobOption)
  | create
  | write
  | delete
  | read
  | size
deriving DecidableEq, Repr

def Endpoint.isProvision : Endpoint → Bool
  | .provision _ => true
  | _ => false

def Endpoint.opts : Endpoint → List BlobOption
  | .provision opts => opts
  | _ => []

def Endpoint.isWrite : Endpoint → Bool
  | .create | .write | .delete => true
  | _ => false

/-- Where a request stands; from the end of its `Get` on, with the handle. -/
inductive Phase where
  | resolving
  | opening (h : HandleId)
  | storing (h : HandleId)
  | loading (h : HandleId)
  | defaulting (h : HandleId)
  | inserting (h : HandleId)
  | working (h : HandleId)
  | releasing (h : HandleId) (ok : Bool)
  | returned (ok : Bool)
deriving DecidableEq, Repr

def Phase.handle : Phase → Option HandleId
  | .resolving | .returned _ => none
  | .opening h | .storing h | .loading h | .defaulting h | .inserting h | .working h | .releasing h _ => some h

def Phase.ended : Phase → Bool
  | .returned _ => true
  | _ => false

/-- A request; `call` is its `Get` in the registry. The fields below `phase` are not the
program's: the options in force when it started, with the handle they were stored for, whether
a provision of the store was stored since, whether a provision ran without another, and the
store that was used. -/
structure Req where
  endpoint : Endpoint
  db : DbName
  store : String
  call : Nat
  phase : Phase
  expects : Option (List BlobOption × HandleId)
  overtaken : Bool
  alone : Bool
  used : Option (HandleId × List BlobOption)
deriving DecidableEq, Repr

def Req.key (q : Req) : DbName × String := (q.db, q.store)

def Req.provisions (key : DbName × String) (q : Req) : Bool :=
  q.endpoint.isProvision && q.key = key && !q.phase.ended

abbrev Cache := HandleId × String → Option (List BlobOption)

/-- `current` records the options in force: those of the last provision, once it has returned
and until another starts. -/
structure State where
  reg : Registry.State
  cache : Cache
  reqs : List Req
  current : DbName × String → Option (List BlobOption × HandleId)

def init (backends : Finmap (fun _ : DbName => Backend)) : State where
  reg := { reg := { Registry.new backends with onClose := true }, calls := [] }
  cache := fun _ => none
  reqs := []
  current := fun _ => none

def forgetBlobStores (cache : Cache) (h : HandleId) : Cache := fun key => if key.1 = h then none else cache key

/-- The handle whose hook a step of the registry runs. -/
def hookOf (s : Registry.State) : Registry.Action → Option HandleId
  | .step i .next =>
    match s.calls[i]? with
    | some (.closing _ (db :: _) (.fireHook true)) => some db.handle
    | _ => none
  | _ => none

def hooked (cache : Cache) : Option HandleId → Cache
  | some h => forgetBlobStores cache h
  | none => cache

/-- A handler releases its own handle, when it is done. -/
def owned (s : State) : Registry.Action → Bool
  | .step i .release => s.reqs.any (fun q => q.call = i && !q.phase.ended)
  | _ => false

def registryStep (s : State) (a : Registry.Action) : Option State :=
  if owned s a then none
  else
    (Registry.step s.reg a).map fun reg =>
      { s with
        reg := reg
        cache := hooked s.cache (hookOf s.reg a) }

def Req.joined (key : DbName × String) (q : Req) : Req := if q.key = key then { q with alone := false } else q

def Req.overtake (key : DbName × String) (q : Req) : Req :=
  if q.key = key ∧ q.used = none then { q with overtaken := true } else q

def newReq (s : State) (endpoint : Endpoint) (db : DbName) (store : String) : Req where
  endpoint := endpoint
  db := db
  store := store
  call := s.reg.calls.length
  phase := .resolving
  expects := s.current (db, store)
  overtaken := false
  alone := !s.reqs.any (Req.provisions (db, store))
  used := none

def start (s : State) (endpoint : Endpoint) (db : DbName) (store : String) : State :=
  { s with
    reg := { s.reg with calls := s.reg.calls ++ [.get db] }
    reqs := (if endpoint.isProvision then s.reqs.map (Req.joined (db, store)) else s.reqs) ++
      [newReq s endpoint db store]
    current := if endpoint.isProvision then Function.update s.current (db, store) none else s.current }

def State.put (s : State) (k : Nat) (q : Req) : State := { s with reqs := s.reqs.set k q }

/-- One step of a handler; `ok` is what the store answers to an open or an operation. -/
def handlerStep (s : State) (k : Nat) (q : Req) (ok : Bool) : Option State :=
  match q.phase with
  | .resolving =>
    match s.reg.calls[q.call]? with
    | some (.holding _ _ (some db)) =>
      some (s.put k { q with phase := if q.endpoint.isProvision then .opening db.handle else .loading db.handle })
    | some (.failed _) => some (s.put k { q with phase := .returned false })
    | _ => none
  | .opening h => some (s.put k { q with phase := if ok then .storing h else .releasing h false })
  | .storing h =>
    some { s with
      cache := Function.update s.cache (h, q.store) (some q.endpoint.opts)
      reqs := (s.reqs.map (Req.overtake q.key)).set k { q.overtake q.key with phase := .releasing h true } }
  | .loading h =>
    match s.cache (h, q.store) with
    | some opts => some (s.put k { q with phase := .working h, used := some (h, opts) })
    | none => some (s.put k { q with phase := .defaulting h })
  | .defaulting h =>
    if ok then
      if q.endpoint.isWrite then some (s.put k { q with phase := .inserting h })
      else some (s.put k { q with phase := .working h, used := some (h, []) })
    else some (s.put k { q with phase := .releasing h false })
  | .inserting h =>
    match s.cache (h, q.store) with
    | some opts => some (s.put k { q with phase := .working h, used := some (h, opts) })
    | none =>
      some { s.put k { q with phase := .working h, used := some (h, []) } with
        cache := Function.update s.cache (h, q.store) (some []) }
  | .working h => some (s.put k { q with phase := .releasing h ok })
  | .releasing h ok' =>
    (Registry.step s.reg (.step q.call .release)).map fun reg =>
      { s.put k { q with phase := .returned ok' } with
        reg := reg
        current := if q.endpoint.isProvision ∧ ok' ∧ q.alone then
            Function.update s.current q.key (some (q.endpoint.opts, h))
          else s.current }
  | .returned _ => none

inductive Action where
  | start (endpoint : Endpoint) (db : DbName) (store : String)
  | registry (a : Registry.Action)
  | advance (k : Nat) (ok : Bool)
deriving DecidableEq, Repr

def step (s : State) : Action → Option State
  | .start endpoint db store => some (start s endpoint db store)
  | .registry a => registryStep s a
  | .advance k ok =>
    match s.reqs[k]? with
    | none => none
    | some q => handlerStep s k q ok

end QuicSql.Httpapi.BlobStores
