import QuicSql.Enroll.Model
import QuicSql.Provision.Model

/-!
# Deleting a principal

`Service.Delete` drops the database of the principal before it looks for the principal. On
a name that is not enrolled it changes nothing, unless the name template leads from it to a
database that can be dropped.
-/

namespace QuicSql.Admin

open Authz Enroll Provision

@[ext]
structure Server where
  world : World
  table : List Row
  dynKeyring : Key → Option Name
  policy : Policy
  count : Int

/-- What the meta store and the file system answer: whether the record of the database and
the row of the principal can be deleted, and which files cannot be removed. -/
structure Answers where
  spec : Bool
  row : Bool
  kept : Path → Bool

/-! ## The name template -/

/-- `ReplaceAll` of a pattern that is not empty; `skip` characters of an occurrence are
still to be passed over. -/
def replaceAll (pattern replacement : List Char) : Nat → List Char → List Char
  | _, [] => []
  | skip + 1, _ :: rest => replaceAll pattern replacement skip rest
  | 0, c :: rest =>
    if (c :: rest).take pattern.length = pattern then
      replacement ++ replaceAll pattern replacement (pattern.length - 1) rest
    else c :: replaceAll pattern replacement 0 rest

def provisionName (template : String) (principal : Name) : DbName :=
  String.ofList (replaceAll "\x7bprincipal\x7d".toList principal.toList 0 template.toList)

example : provisionName "u-\x7bprincipal\x7d.db" "ann" = "u-ann.db" := by decide

/-! ## The deletion -/

def dropFirst (env : Env) (cfg : Enroll.Config) (s : Server) (name : Name) (f : Answers) : Except Err Unit × World :=
  if cfg.provision && cfg.drop then s.world.drop env (cfg.provisionName name) true f.spec f.kept
  else (.ok (), s.world)

def deleteRow (s : Server) (name : Name) (f : Answers) : Except Err Bool × Server :=
  if f.row = false then (.error .failed, s)
  else if Enrolled s.table name then
    (.ok true, { s with
      table := deleteEnrolled s.table name
      dynKeyring := removeKeyringName s.dynKeyring name
      policy := s.policy.revokePrincipal name
      count := s.count - 1 })
  else (.ok false, s)

/-- `Service.Delete`. The database may be unknown. -/
def delete (env : Env) (cfg : Enroll.Config) (s : Server) (name : Name) (f : Answers) : Except Err Bool × Server :=
  match dropFirst env cfg s name f with
  | (.ok (), world) => deleteRow { s with world := world } name f
  | (.error .unknownDB, world) => deleteRow { s with world := world } name f
  | (.error e, world) => (.error e, { s with world := world })

inductive Status where
  | ok
  | badRequest
  | notFound
  | conflict
  | internalError
deriving DecidableEq, Repr

def handlePrincipalDelete (env : Env) (cfg : Enroll.Config) (s : Server) (name : Name) (f : Answers) : Status × Server :=
  if name = "" then (.badRequest, s)
  else
    match delete env cfg s name f with
    | (.error .busy, t) => (.conflict, t)
    | (.error _, t) => (.internalError, t)
    | (.ok false, t) => (.notFound, t)
    | (.ok true, t) => (.ok, t)

def Drops (cfg : Enroll.Config) (s : Server) (name : Name) : Prop :=
  cfg.provision = true ∧ cfg.drop = true ∧ s.world.Removable (cfg.provisionName name)

variable {env : Env} {cfg : Enroll.Config} {s : Server} {name : Name}

theorem deleteRow_absent (f : Answers) (h : ¬ Enrolled s.table name) :
    (deleteRow s name f).1 ≠ .ok true ∧ (deleteRow s name f).2 = s := by
  rw [deleteRow, if_neg h]
  split
  · exact ⟨fun hEq => (by cases hEq), rfl⟩
  · exact ⟨fun hEq => (by cases hEq), rfl⟩

theorem dropFirst_of_drops (env : Env) (f : Answers) (h : Drops cfg s name) :
    ∃ world, dropFirst env cfg s name f = (.ok (), world) ∧ world.backends (cfg.provisionName name) = none := by
  obtain ⟨hProvision, hDrop, hRemovable⟩ := h
  obtain ⟨world, hOk, hBackends, -⟩ := drop_places env hRemovable true f.spec f.kept
  refine ⟨world, ?_, ?_⟩
  · rw [dropFirst, hProvision, hDrop]
    exact hOk
  · rw [hBackends, Function.update_self]

theorem dropFirst_of_not (env : Env) (f : Answers) (h : ¬ Drops cfg s name) :
    dropFirst env cfg s name f = (.ok (), s.world) ∨ dropFirst env cfg s name f = (.error .unknownDB, s.world) ∨
      dropFirst env cfg s name f = (.error .busy, s.world) := by
  unfold dropFirst
  split
  · rename_i hBoth
    obtain ⟨hProvision, hDrop⟩ := Bool.and_eq_true_iff.mp hBoth
    obtain ⟨e, hErr, rfl | rfl⟩ := drop_error env (fun hRemovable => h ⟨hProvision, hDrop, hRemovable⟩) true f.spec f.kept
    · exact .inr (.inl hErr)
    · exact .inr (.inr hErr)
  · exact .inl rfl

theorem delete_of_drops (env : Env) (f : Answers) (h : ¬ Enrolled s.table name) (hDrops : Drops cfg s name) :
    (delete env cfg s name f).1 ≠ .ok true ∧ (delete env cfg s name f).2 ≠ s := by
  obtain ⟨world, hFirst, hGone⟩ := dropFirst_of_drops env f hDrops
  rw [delete, hFirst]
  dsimp only
  obtain ⟨hReport, hState⟩ := deleteRow_absent (s := { s with world := world }) f h
  refine ⟨hReport, fun hEq => ?_⟩
  have hBackends := congrArg (fun t : Server => t.world.backends (cfg.provisionName name)) (hState.symm.trans hEq)
  have hRegistered := hDrops.2.2.1
  rw [← hBackends, hGone] at hRegistered
  cases hRegistered

theorem delete_of_not_drops (env : Env) (f : Answers) (h : ¬ Enrolled s.table name) (hNot : ¬ Drops cfg s name) :
    (delete env cfg s name f).1 ≠ .ok true ∧ (delete env cfg s name f).2 = s := by
  rcases dropFirst_of_not env f hNot with hFirst | hFirst | hFirst <;> rw [delete, hFirst] <;> dsimp only
  · exact deleteRow_absent f h
  · exact deleteRow_absent f h
  · exact ⟨fun hEq => (by cases hEq), rfl⟩

theorem handle_eq_delete (env : Env) (cfg : Enroll.Config) (s : Server) (f : Answers) (hName : name ≠ "") :
    (handlePrincipalDelete env cfg s name f).2 = (delete env cfg s name f).2 ∧
      ((handlePrincipalDelete env cfg s name f).1 = .ok ↔ (delete env cfg s name f).1 = .ok true) := by
  rw [handlePrincipalDelete, if_neg hName]
  split <;> rename_i hDelete <;> rw [hDelete] <;> simp

/-- Deleting a name that is not enrolled reports no deletion, and it leaves the stores alone
exactly if it does not start with a drop that goes through. -/
theorem delete_not_enrolled (env : Env) (cfg : Enroll.Config) (s : Server) (name : Name) (f : Answers)
    (h : ¬ Enrolled s.table name) :
    (delete env cfg s name f).1 ≠ .ok true ∧ (handlePrincipalDelete env cfg s name f).1 ≠ .ok ∧
      ((delete env cfg s name f).2 = s ↔ ¬ Drops cfg s name) ∧
      ((handlePrincipalDelete env cfg s name f).2 = s ↔ name = "" ∨ ¬ Drops cfg s name) := by
  have hReport : (delete env cfg s name f).1 ≠ .ok true := by
    rcases Classical.em (Drops cfg s name) with hDrops | hNot
    · exact (delete_of_drops env f h hDrops).1
    · exact (delete_of_not_drops env f h hNot).1
  have hState : (delete env cfg s name f).2 = s ↔ ¬ Drops cfg s name :=
    ⟨fun hEq hDrops => (delete_of_drops env f h hDrops).2 hEq, fun hNot => (delete_of_not_drops env f h hNot).2⟩
  rcases Decidable.em (name = "") with hEmpty | hName
  · have hHandle : handlePrincipalDelete env cfg s name f = (.badRequest, s) := if_pos hEmpty
    rw [hHandle]
    exact ⟨hReport, fun hEq => (by cases hEq), hState, iff_of_true rfl (.inl hEmpty)⟩
  · obtain ⟨hSame, hOk⟩ := handle_eq_delete env cfg s f hName
    rw [hSame]
    refine ⟨hReport, fun hEq => hReport (hOk.mp hEq), hState, hState.trans ?_⟩
    exact (or_iff_right hName).symm

def oneDatabase : Server where
  world := {
    backends := fun n => if n = "app" then some ⟨some "/data/app.db"⟩ else none
    entries := fun _ => none
    feed := fun _ => none
    databases := []
    files := fun p => p = "/data/app.db" }
  table := []
  dynKeyring := fun _ => none
  policy := newPolicy false
  count := 0

/-- A database for each principal, under its name, dropped with it. -/
def perPrincipal : Enroll.Config :=
  { Enroll.bareConfig with
    provision := true
    provisionName := provisionName "\x7bprincipal\x7d"
    provisionLevel := some .readWrite
    drop := true }

def plainEnv : Env := ⟨false, true, fun _ => true, fun _ => true⟩

def noFailures : Answers := ⟨true, true, fun _ => false⟩

theorem delete_missing_principal :
    (delete plainEnv perPrincipal oneDatabase "bob" noFailures).2 = oneDatabase := by
  refine ((delete_not_enrolled plainEnv perPrincipal oneDatabase "bob" noFailures ?_).2.2.1).mpr ?_
  · rintro ⟨r, hr, -⟩
    cases hr
  · rintro ⟨-, -, hRegistered, -⟩
    revert hRegistered
    decide

theorem delete_missing_principal_drops :
    ¬ ((delete plainEnv perPrincipal oneDatabase "app" noFailures).1 = .ok false →
      (delete plainEnv perPrincipal oneDatabase "app" noFailures).2 = oneDatabase) := by
  intro h
  have hFiles := congrArg (fun t : Server => (t.world.backends "app", t.world.files "/data/app.db")) (h (by rfl))
  revert hFiles
  decide

end QuicSql.Admin
