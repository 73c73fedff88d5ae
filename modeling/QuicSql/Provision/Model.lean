import QuicSql.Authz.Policy

/-!
# Creating and dropping databases

The provisioner keeps four places in step: the registry, the change feed, the meta store
and the files. Here its two operations run alone. What an operation meets outside of these
places (a spec that validates, an open or a write that succeeds) is a parameter.
-/

namespace QuicSql.Provision

open Authz

abbrev Path := String

/-- A grant whose level does not parse is kept in the spec and grants nothing. `path` is
where the backend of the spec keeps its file, if it has one. -/
structure Spec where
  name : DbName
  path : Option Path
  grants : List (String × Option Level)
deriving DecidableEq, Repr

structure Backend where
  path : Option Path
deriving DecidableEq, Repr

structure Entry where
  opening : Bool
  refs : Nat
  reserved : Bool
deriving DecidableEq, Repr

def Entry.busy (e : Entry) : Bool := e.opening || decide (0 < e.refs) || e.reserved

@[ext]
structure World where
  backends : DbName → Option Backend
  entries : DbName → Option Entry
  feed : DbName → Option Path
  databases : List Spec
  files : Path → Bool

inductive Err where
  | unknownDB
  | busy
  | exists
  | badSpec
  | failed
deriving DecidableEq, Repr

/-- Whether the hooks are there; which specs validate, with a path inside the data
directory, and for which of them a backend can be built. -/
structure Env where
  feed : Bool
  store : Bool
  validates : Spec → Bool
  builds : Spec → Bool

def grantAll (name : DbName) (p : Policy) (grants : List (String × Option Level)) : Policy :=
  grants.foldl (fun p g => p.grantParsed name g.1 g.2) p

/-- The table of specs has one row a name. -/
def deleteSpec (databases : List Spec) (name : DbName) : List Spec := databases.filter (fun d => d.name ≠ name)

def putSpec (databases : List Spec) (spec : Spec) : List Spec := deleteSpec databases spec.name ++ [spec]

namespace World

variable (w : World)

def add (name : DbName) (be : Backend) : Except Err World :=
  match w.backends name with
  | some _ => .error .exists
  | none => .ok { w with backends := Function.update w.backends name (some be) }

def detached (name : DbName) : World :=
  { w with
    backends := Function.update w.backends name none
    entries := Function.update w.entries name none }

def remove (name : DbName) : Except Err World :=
  match w.backends name with
  | none => .error .unknownDB
  | some _ =>
    match w.entries name with
    | some e => if e.busy then .error .busy else .ok (w.detached name)
    | none => .ok (w.detached name)

def register (env : Env) (name : DbName) (be : Backend) : World :=
  match env.feed, be.path with
  | true, some path => { w with feed := Function.update w.feed name (some path) }
  | _, _ => w

def forget (env : Env) (name : DbName) : World :=
  if env.feed then { w with feed := Function.update w.feed name none } else w

/-- `Get` and the release of what it opened. -/
def opened (name : DbName) (be : Backend) : World :=
  { w with
    entries := Function.update w.entries name (some ⟨false, 0, false⟩)
    files := match be.path with
      | some path => Function.update w.files path true
      | none => w.files }

/-- The rollback of `Create`, which ignores an error of `Remove`. -/
def rollback (env : Env) (name : DbName) (be : Backend) : World :=
  let w' := match w.remove name with
    | .ok w' => w'
    | .error _ => w
  if be.path.isSome then w'.forget env name else w'

def create (env : Env) (spec : Spec) (opens persists : Bool) : Except Err Unit × World :=
  if (env.validates spec && env.builds spec) = false then (.error .badSpec, w)
  else
    match w.add spec.name ⟨spec.path⟩ with
    | .error e => (.error e, w)
    | .ok added =>
      let registered := added.register env spec.name ⟨spec.path⟩
      if opens = false then (.error .badSpec, registered.rollback env spec.name ⟨spec.path⟩)
      else
        let ready := registered.opened spec.name ⟨spec.path⟩
        if env.store = false then (.ok (), ready)
        else if persists then (.ok (), { ready with databases := putSpec ready.databases spec })
        else (.error .failed, ready.rollback env spec.name ⟨spec.path⟩)

/-- `kept` are the files that cannot be removed. -/
def removeFiles (path : Path) (kept : Path → Bool) : World :=
  { w with
    files := fun p => w.files p && (kept p || !(p = path || p = path ++ "-wal" || p = path ++ "-shm")) }

def drop (env : Env) (name : DbName) (deleteFile deletes : Bool) (kept : Path → Bool) : Except Err Unit × World :=
  let path := if deleteFile then (w.backends name).bind Backend.path else none
  match w.remove name with
  | .error e => (.error e, w)
  | .ok removed =>
    let forgotten := removed.forget env name
    let deleted := if env.store && deletes then
        { forgotten with databases := deleteSpec forgotten.databases name }
      else forgotten
    match path with
    | some path => (.ok (), deleted.removeFiles path kept)
    | none => (.ok (), deleted)

def Removable (name : DbName) : Prop := (w.backends name).isSome ∧ ∀ e, w.entries name = some e → e.busy = false

end World

variable {w : World} {name : DbName}

theorem remove_ok (h : w.Removable name) : w.remove name = .ok (w.detached name) := by
  obtain ⟨be, hBackend⟩ := Option.isSome_iff_exists.mp h.1
  rw [World.remove, hBackend]
  dsimp only
  split
  · rename_i e hEntry
    rw [h.2 e hEntry]
    rfl
  · rfl

theorem remove_unknown (h : w.backends name = none) : w.remove name = .error .unknownDB := by
  rw [World.remove, h]

theorem remove_busy (hSome : (w.backends name).isSome) (h : ¬ w.Removable name) : w.remove name = .error .busy := by
  obtain ⟨be, hBackend⟩ := Option.isSome_iff_exists.mp hSome
  rw [World.remove, hBackend]
  dsimp only
  split
  · rename_i e hEntry
    split
    · rfl
    · rename_i hIdle
      refine absurd ⟨hSome, fun e' he' => ?_⟩ h
      cases hEntry.symm.trans he'
      exact Bool.eq_false_iff.mpr hIdle
  · rename_i hNone
    exact absurd ⟨hSome, fun e' he' => by cases hNone.symm.trans he'⟩ h

/-! ## What a create leaves -/

/-- Outside of the feed and the files nothing has changed. -/
structure World.Same (w w' : World) : Prop where
  backends : w'.backends = w.backends
  entries : w'.entries = w.entries
  databases : w'.databases = w.databases

theorem create_invalid {env : Env} {spec : Spec} (h : (env.validates spec && env.builds spec) = false)
    (opens persists : Bool) : w.create env spec opens persists = (.error .badSpec, w) :=
  if_pos h

theorem create_exists {env : Env} {spec : Spec} (h : (env.validates spec && env.builds spec) = true)
    (hTaken : (w.backends spec.name).isSome) (opens persists : Bool) :
    w.create env spec opens persists = (.error .exists, w) := by
  obtain ⟨be, hBackend⟩ := Option.isSome_iff_exists.mp hTaken
  simp [World.create, h, World.add, hBackend]

theorem register_places (env : Env) (be : Backend) : w.Same (w.register env name be) := by
  unfold World.register
  split <;> exact ⟨rfl, rfl, rfl⟩

theorem forget_places (env : Env) : w.Same (w.forget env name) := by
  unfold World.forget
  split <;> exact ⟨rfl, rfl, rfl⟩

theorem rollback_places (env : Env) (be : Backend) (h : w.Removable name) :
    (w.detached name).Same (w.rollback env name be) := by
  unfold World.rollback
  rw [remove_ok h]
  dsimp only
  split
  · exact forget_places env
  · exact ⟨rfl, rfl, rfl⟩

theorem create_unopened {env : Env} {spec : Spec} (h : (env.validates spec && env.builds spec) = true)
    (hFree : w.backends spec.name = none) (hIdle : w.entries spec.name = none) (persists : Bool) :
    ∃ w', w.create env spec false persists = (.error .badSpec, w') ∧ w.Same w' := by
  let added : World := { w with backends := Function.update w.backends spec.name (some ⟨spec.path⟩) }
  let registered : World := added.register env spec.name ⟨spec.path⟩
  have hPlaces : added.Same registered := register_places env ⟨spec.path⟩
  have hRemovable : registered.Removable spec.name := by
    refine ⟨?_, fun e he => ?_⟩
    · rw [hPlaces.backends]
      exact congrArg Option.isSome (Function.update_self spec.name _ w.backends)
    · rw [hPlaces.entries] at he
      cases hIdle.symm.trans he
  obtain ⟨hBackends, hEntries, hDatabases⟩ := rollback_places env ⟨spec.path⟩ hRemovable
  refine ⟨registered.rollback env spec.name ⟨spec.path⟩, ?_, ?_, ?_, hDatabases.trans hPlaces.databases⟩
  · simp [World.create, h, World.add, hFree, registered, added]
  · rw [hBackends, World.detached, hPlaces.backends, Function.update_idem, ← hFree, Function.update_eq_self]
  · rw [hEntries, World.detached, hPlaces.entries, ← hIdle, Function.update_eq_self]

theorem create_opened {env : Env} {spec : Spec} (h : (env.validates spec && env.builds spec) = true)
    (hFree : w.backends spec.name = none) :
    ∃ w', w.create env spec true true = (.ok (), w') ∧
      w'.backends = Function.update w.backends spec.name (some ⟨spec.path⟩) ∧
      w'.entries = Function.update w.entries spec.name (some ⟨false, 0, false⟩) ∧
      w'.databases = if env.store then putSpec w.databases spec else w.databases := by
  let added : World := { w with backends := Function.update w.backends spec.name (some ⟨spec.path⟩) }
  obtain ⟨hBackends, hEntries, hDatabases⟩ : added.Same (added.register env spec.name ⟨spec.path⟩) :=
    register_places env ⟨spec.path⟩
  let ready : World := (added.register env spec.name ⟨spec.path⟩).opened spec.name ⟨spec.path⟩
  have hReady : ready.entries = Function.update w.entries spec.name (some ⟨false, 0, false⟩) := by
    change Function.update (added.register env spec.name ⟨spec.path⟩).entries spec.name _ = _
    rw [hEntries]
  cases hStore : env.store with
  | true =>
    refine ⟨{ ready with databases := putSpec ready.databases spec }, ?_, hBackends, hReady, ?_⟩
    · simp [World.create, h, World.add, hFree, hStore, ready, added]
    · exact congrArg (fun databases => putSpec databases spec) hDatabases
  | false =>
    refine ⟨ready, ?_, hBackends, hReady, hDatabases⟩
    simp [World.create, h, World.add, hFree, hStore, ready, added]

theorem drop_places (env : Env) (h : w.Removable name) (deleteFile deletes : Bool) (kept : Path → Bool) :
    ∃ w', w.drop env name deleteFile deletes kept = (.ok (), w') ∧
      w'.backends = Function.update w.backends name none ∧ w'.entries = Function.update w.entries name none ∧
      w'.databases = if env.store && deletes then deleteSpec w.databases name else w.databases := by
  obtain ⟨hBackends, hEntries, hDatabases⟩ : (w.detached name).Same (World.forget (w.detached name) env name) :=
    forget_places env
  unfold World.drop
  rw [remove_ok h]
  dsimp only
  cases env.store && deletes with
  | true =>
    have hDeleted := congrArg (fun databases => deleteSpec databases name) hDatabases
    split
    · exact ⟨_, rfl, hBackends, hEntries, hDeleted⟩
    · exact ⟨_, rfl, hBackends, hEntries, hDeleted⟩
  | false =>
    split
    · exact ⟨_, rfl, hBackends, hEntries, hDatabases⟩
    · exact ⟨_, rfl, hBackends, hEntries, hDatabases⟩

theorem drop_of_error (env : Env) {e : Err} (h : w.remove name = .error e) (deleteFile deletes : Bool)
    (kept : Path → Bool) : w.drop env name deleteFile deletes kept = (.error e, w) := by
  rw [World.drop, h]

theorem drop_error (env : Env) (h : ¬ w.Removable name) (deleteFile deletes : Bool) (kept : Path → Bool) :
    ∃ e, w.drop env name deleteFile deletes kept = (.error e, w) ∧ (e = .unknownDB ∨ e = .busy) := by
  cases hBackend : w.backends name with
  | none => exact ⟨_, drop_of_error env (remove_unknown hBackend) deleteFile deletes kept, .inl rfl⟩
  | some be =>
    have hSome : (w.backends name).isSome := by
      rw [hBackend]
      rfl
    exact ⟨_, drop_of_error env (remove_busy hSome h) deleteFile deletes kept, .inr rfl⟩

end QuicSql.Provision
