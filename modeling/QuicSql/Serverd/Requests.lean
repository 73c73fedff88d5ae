import QuicSql.Admin.PrincipalDelete
import QuicSql.Lib.Transition
import QuicSql.Serverd.Start

/-!
# A running server

Creates and detaches, enrollments, deletions of principals and provisioning run one after
the other, and every call of the meta store succeeds. In between sessions begin and end,
and users of the databases come and go.
-/

namespace QuicSql.Serverd

open Authz Enroll Provision Admin Lib

/-- `sessions` are the names with a session token that is accepted. -/
structure Running where
  server : Server
  sessions : List Name

inductive Action where
  | create (spec : Spec) (opens : Bool)
  | detach (name : DbName)
  /-- `passes` tells whether the token gate lets the key through. -/
  | enroll (key : Key) (passes opens : Bool)
  | delete (name : Name) (kept : Path → Bool)
  | login (name : Name)
  | loginKey (key : Key)
  | lapse (name : Name)
  | users (name : DbName) (entry : Option Entry)

namespace Config

variable (cfg : Config)

def start (created : List Spec) (keys : List Key) (files : Path → Bool) (sessions : List Name) : Running :=
  let table : List Row := keys.map (fun key => ⟨cfg.enroll.principalName key, key⟩)
  let spec := specOf (cfg.reconcile created)
  { server := {
      world := {
        backends := fun name => (spec name).map (fun d => ⟨d.path⟩)
        entries := fun _ => none
        feed := fun name => if cfg.feed then (spec name).bind Spec.path else none
        databases := created
        files := files }
      table := table
      dynKeyring := (cfg.rows table).foldl (fun dyn r => addKeyring cfg.enroll dyn r.key r.name) (fun _ => none)
      policy := cfg.load created table
      count := (cfg.rows table).length }
    sessions := sessions }

/-! ## Requests -/

def handleCreate (s : Server) (spec : Spec) (opens : Bool) : Server :=
  match s.world.create cfg.env spec opens true with
  | (.ok _, world) =>
    { s with world := world, policy := grantAll spec.name (s.policy.revoke spec.name) spec.grants }
  | (.error _, world) => { s with world := world }

def handleDetach (s : Server) (name : DbName) : Server :=
  match s.world.drop cfg.env name false true (fun _ => false) with
  | (.ok _, world) => { s with world := world, policy := s.policy.revoke name }
  | (.error _, world) => { s with world := world }

/-- The check of the name comes first among those of `validates`. -/
def provisionSpec (principal : Name) : Spec :=
  ⟨cfg.enroll.provisionName principal, cfg.provisionPath (cfg.enroll.provisionName principal),
    [(principal, cfg.enroll.provisionLevel)]⟩

def provisionFor (s : Server) (principal : Name) (opens : Bool) : Except Err Unit × Server :=
  match s.world.create cfg.env (cfg.provisionSpec principal) opens true with
  | (.ok _, world) =>
    (.ok (), { s with world := world, policy := grantProvision cfg.enroll s.policy principal })
  | (.error .exists, world) =>
    (.ok (), { s with world := world, policy := grantProvision cfg.enroll s.policy principal })
  | (.error e, world) => (.error e, { s with world := world })

def putEnrolled (s : Server) (key : Key) : Server :=
  { s with
    table := s.table ++ [⟨cfg.enroll.principalName key, key⟩]
    dynKeyring := addKeyring cfg.enroll s.dynKeyring key (cfg.enroll.principalName key)
    policy := applyGrants cfg.enroll.grants s.policy (cfg.enroll.principalName key)
    count := s.count + 1 }

def rollbackEnroll (s : Server) (name : Name) : Server :=
  { s with
    table := deleteEnrolled s.table name
    dynKeyring := removeKeyringName s.dynKeyring name
    policy := s.policy.revokePrincipal name
    count := if Enrolled s.table name then s.count - 1 else s.count }

def serveEnroll (s : Server) (key : Key) (passes opens : Bool) : Server :=
  let name := cfg.enroll.principalName key
  if (enrolledByKey s.table key).isSome then s
  else if passes = false ∨ (0 < cfg.enroll.maxPrincipals ∧ cfg.enroll.maxPrincipals ≤ s.count) ∨
      conflicts s.table ⟨name, key⟩ = true then s
  else if cfg.enroll.provision = false then cfg.putEnrolled s key
  else if (enrolledByKey (cfg.putEnrolled s key).table key).isNone then rollbackEnroll (cfg.putEnrolled s key) name
  else
    match cfg.provisionFor (cfg.putEnrolled s key) name opens with
    | (.ok _, t) => t
    | (.error _, t) => rollbackEnroll t name

/-- The admin requests need the control plane, the others enrollment. -/
def step (s : Running) : Action → Option Running
  | .create spec opens =>
    if cfg.controlPlane then some { s with server := cfg.handleCreate s.server spec opens } else none
  | .detach name => if cfg.controlPlane then some { s with server := cfg.handleDetach s.server name } else none
  | .enroll key passes opens =>
    if cfg.enrolls then some { s with server := cfg.serveEnroll s.server key passes opens } else none
  | .delete name kept =>
    if cfg.enrolls then some { s with server := (delete cfg.env cfg.enroll s.server name ⟨true, true, kept⟩).2 }
    else none
  | .login name =>
    if name ∈ cfg.principals ∨ name ∈ cfg.rosterNames then some { s with sessions := name :: s.sessions } else none
  | .loginKey key => (s.server.dynKeyring key).map (fun name => { s with sessions := name :: s.sessions })
  | .lapse name => some { s with sessions := s.sessions.filter (fun n => n ≠ name) }
  | .users name entry =>
    if (s.server.world.backends name).isSome then
      some { s with server.world.entries := Function.update s.server.world.entries name entry }
    else none

end Config

end QuicSql.Serverd
