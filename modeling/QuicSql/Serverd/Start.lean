import QuicSql.Enroll.Model
import QuicSql.Provision.Model

/-!
# The policy of a starting server

A server takes its databases from the configuration and from the meta store, which wins on
a name of both, compiles their grants into the policy, and gives every enrolled principal
the grants of the template.
-/

namespace QuicSql.Serverd

open Authz Enroll Provision

/-- A line of the authorized keys; a key without a comment is skipped. -/
def rosterLine (ring : Key → Option Name) (l : Key × Name) : Key → Option Name :=
  if l.2 = "" then ring else Function.update ring l.1 (some l.2)

def loadRoster (lines : List (Key × Name)) : Key → Option Name := lines.foldl rosterLine (fun _ => none)

/-- A configuration that passed validation. `validates` and `builds` are the checks of a
database, `provisionPath` says where the database of an enrolled principal is put. The
comments of the authorized keys name principals too, and no rule is put on them. -/
structure Config where
  principals : List String
  authorizedKeys : List (Key × Name)
  admins : List String
  controlPlane : Bool
  databases : List Spec
  feed : Bool
  validates : Spec → Bool
  builds : Spec → Bool
  enrolls : Bool
  enroll : Enroll.Config
  provisionPath : DbName → Option Path
  distinct : (databases.map Spec.name).Nodup
  unreserved : ∀ name ∈ principals, hasEnrolledPrefix name = false
  reserved : ∀ key, hasEnrolledPrefix (enroll.principalName key) = true
  rosterStatic : ∀ key, (loadRoster authorizedKeys key).isSome → enroll.static key = true
  adminsKnown : ∀ name ∈ admins, name ∈ principals
  adminsSome : controlPlane = true → admins ≠ []
  enrollsControlled : enrolls = true → controlPlane = true

def anyGrants (dbs : List Spec) : Bool := dbs.any (fun d => !d.grants.isEmpty)

/-- `add` of `reconcile`: a name keeps its place. -/
def addDb : List Spec → Spec → List Spec
  | [], db => [db]
  | d :: rest, db => if d.name = db.name then db :: rest else d :: addDb rest db

/-- The first database of the name; names are distinct. -/
def specOf (dbs : List Spec) (name : DbName) : Option Spec := dbs.find? (fun d => d.name = name)

namespace Config

variable (cfg : Config)

def rosterNames : List Name := cfg.authorizedKeys.filterMap (fun l => loadRoster cfg.authorizedKeys l.1)

def env : Env := ⟨cfg.feed, cfg.controlPlane, cfg.validates, cfg.builds⟩

def authConfigured : Bool := !cfg.principals.isEmpty || anyGrants cfg.databases

/-- The meta store is there with the control plane. -/
def reconcile (created : List Spec) : List Spec :=
  if cfg.controlPlane then (created.filter cfg.validates).foldl addDb (cfg.databases.foldl addDb [])
  else cfg.databases

def buildPolicy (dbs : List Spec) : Policy :=
  dbs.foldl (fun p db => grantAll db.name p db.grants) (newPolicy (!(!cfg.principals.isEmpty || anyGrants dbs)))

def rows (table : List Row) : List Row := if cfg.enrolls then table else []

def load (created : List Spec) (table : List Row) : Policy :=
  (cfg.rows table).foldl (fun p r => applyGrants cfg.enroll.grants p r.name) (cfg.buildPolicy (cfg.reconcile created))

def asked (created : List Spec) (db : DbName) (name : String) : Nat :=
  (specOf (cfg.reconcile created) db).elim 0 (fun d => granted d.grants name)

def template (table : List Row) (db : DbName) (name : String) : Nat :=
  if Enrolled (cfg.rows table) name then granted cfg.enroll.grants db else 0

end Config

theorem loadRoster_mem {cfg : Config} {key : Key} {name : Name} (h : loadRoster cfg.authorizedKeys key = some name) :
    name ∈ cfg.rosterNames := by
  have hLine : ∀ (lines : List (Key × Name)) (ring : Key → Option Name),
      lines.foldl rosterLine ring key = some name → ring key = some name ∨ ∃ l ∈ lines, l.1 = key := by
    intro lines
    induction lines with
    | nil => exact fun _ h => .inl h
    | cons l rest ih =>
      intro ring hFold
      rcases ih _ hFold with hRing | ⟨l', hl', hKey⟩
      · rcases Decidable.em (l.1 = key) with hKey | hNe
        · exact .inr ⟨l, List.mem_cons_self, hKey⟩
        · refine .inl ?_
          unfold rosterLine at hRing
          split at hRing
          · exact hRing
          · rwa [Function.update_of_ne (Ne.symm hNe)] at hRing
      · exact .inr ⟨l', List.mem_cons_of_mem _ hl', hKey⟩
  obtain ⟨l, hl, rfl⟩ := (hLine _ _ h).resolve_left (fun hNone => by cases hNone)
  exact List.mem_filterMap.mpr ⟨l, hl, h⟩

/-! ## Reconciled databases -/

variable {dbs : List Spec} {db : Spec} {name : DbName}

theorem specOf_some (h : specOf dbs name = some db) : db ∈ dbs ∧ db.name = name := by
  have hName := List.find?_some h
  exact ⟨List.mem_of_find?_eq_some h, of_decide_eq_true hName⟩

theorem specOf_cons : specOf (db :: dbs) name = if db.name = name then some db else specOf dbs name := by
  rw [specOf, List.find?_cons]
  rcases Decidable.em (db.name = name) with hSame | hNe
  · simp [hSame]
  · simp [hNe, specOf]

theorem specOf_addDb : specOf (addDb dbs db) name = if db.name = name then some db else specOf dbs name := by
  induction dbs with
  | nil => exact specOf_cons
  | cons d rest ih =>
    rw [addDb, specOf_cons]
    split
    · rename_i hSame
      rw [specOf_cons, hSame]
      split <;> rfl
    · rename_i hNe
      rw [specOf_cons, ih]
      split
      · rename_i hFirst
        rw [if_neg fun hEq => hNe (hFirst.trans hEq.symm)]
      · rfl

theorem names_addDb (hName : name ∈ (addDb dbs db).map Spec.name) : name = db.name ∨ name ∈ dbs.map Spec.name := by
  induction dbs with
  | nil => simpa [addDb] using hName
  | cons d rest ih =>
    unfold addDb at hName
    split at hName <;> grind

theorem nodup_addDb (h : (dbs.map Spec.name).Nodup) : ((addDb dbs db).map Spec.name).Nodup := by
  induction dbs with
  | nil => simp [addDb]
  | cons d rest ih =>
    obtain ⟨hFresh, hRest⟩ := List.nodup_cons.mp h
    unfold addDb
    split
    · rename_i hSame
      rw [List.map_cons, ← hSame]
      exact List.nodup_cons.mpr ⟨hFresh, hRest⟩
    · rename_i hNe
      refine List.nodup_cons.mpr ⟨fun hIn => ?_, ih hRest⟩
      rcases names_addDb hIn with hEq | hOld
      · exact hNe hEq
      · exact hFresh hOld

theorem nodup_foldl (created : List Spec) (h : (dbs.map Spec.name).Nodup) :
    ((created.foldl addDb dbs).map Spec.name).Nodup := by
  induction created generalizing dbs with
  | nil => exact h
  | cons d rest ih => exact ih (nodup_addDb h)

/-- What is under a name depends on what was there and on the databases of that name. -/
theorem specOf_foldl_congr {dbs' : List Spec} (created : List Spec) (h : specOf dbs name = specOf dbs' name) :
    specOf (created.foldl addDb dbs) name = specOf (created.foldl addDb dbs') name := by
  induction created generalizing dbs dbs' with
  | nil => exact h
  | cons d rest ih =>
    refine ih ?_
    rw [specOf_addDb, specOf_addDb, h]

theorem specOf_foldl_delete (created : List Spec) {other : DbName} (h : name ≠ other) :
    specOf ((deleteSpec created other).foldl addDb dbs) name = specOf (created.foldl addDb dbs) name := by
  induction created generalizing dbs with
  | nil => rfl
  | cons d rest ih =>
    rcases Decidable.em (d.name = other) with hGone | hKept
    · have hDelete : deleteSpec (d :: rest) other = deleteSpec rest other := by simp [deleteSpec, hGone]
      rw [hDelete, ih]
      refine specOf_foldl_congr rest ?_
      rw [specOf_addDb, if_neg (hGone.trans_ne h.symm)]
    · have hDelete : deleteSpec (d :: rest) other = d :: deleteSpec rest other := by simp [deleteSpec, hKept]
      rw [hDelete]
      exact ih

namespace Config

variable {cfg : Config} {created : List Spec}

theorem nodup_reconcile : ((cfg.reconcile created).map Spec.name).Nodup := by
  unfold reconcile
  split
  · exact nodup_foldl _ (nodup_foldl _ List.nodup_nil)
  · exact cfg.distinct

theorem specOf_reconcile_delete (other : DbName) (h : name ≠ other) :
    specOf (cfg.reconcile (deleteSpec created other)) name = specOf (cfg.reconcile created) name := by
  unfold reconcile
  split
  · have hFilter : (deleteSpec created other).filter cfg.validates = deleteSpec (created.filter cfg.validates) other := by
      simp [deleteSpec, List.filter_filter, Bool.and_comm]
    rw [hFilter]
    exact specOf_foldl_delete _ h
  · rfl

theorem specOf_reconcile_put (hControl : cfg.controlPlane = true) (hValid : cfg.validates db = true) :
    specOf (cfg.reconcile (putSpec created db)) name =
      if db.name = name then some db else specOf (cfg.reconcile created) name := by
  have hPut : cfg.reconcile (putSpec created db) = addDb (cfg.reconcile (deleteSpec created db.name)) db := by
    simp [reconcile, hControl, putSpec, hValid]
  rw [hPut, specOf_addDb]
  split
  · rfl
  · rename_i hNe
    exact specOf_reconcile_delete db.name (Ne.symm hNe)

end Config

/-! ## Ranks of a loaded policy -/

section Ranks

variable {p : Policy} {principal q : String}

theorem rank_grantAll (grants : List (String × Option Level)) (db : DbName) :
    (grantAll name p grants).rank db q = if db = name then max (p.rank db q) (granted grants q) else p.rank db q := by
  induction grants generalizing p with
  | nil =>
    rw [granted, Nat.max_zero, ite_self]
    rfl
  | cons g rest ih =>
    change (grantAll name (p.grantParsed name g.1 g.2) rest).rank db q = _
    rw [ih, Policy.rank_grantParsed, granted]
    grind

theorem rank_applyGrants (grants : List (DbName × Option Level)) (db : DbName) :
    (applyGrants grants p principal).rank db q =
      if q = principal then max (p.rank db q) (granted grants db) else p.rank db q := by
  induction grants generalizing p with
  | nil =>
    rw [granted, Nat.max_zero, ite_self]
    rfl
  | cons g rest ih =>
    change (applyGrants rest (p.grantParsed g.1 principal g.2) principal).rank db q = _
    rw [ih, Policy.rank_grantParsed, granted]
    grind

theorem rank_applyRows (grants : List (DbName × Option Level)) (rows : List Row) (db : DbName) :
    (rows.foldl (fun p r => applyGrants grants p r.name) p).rank db q =
      max (p.rank db q) (if Enrolled rows q then granted grants db else 0) := by
  induction rows generalizing p with
  | nil => simp [Enrolled]
  | cons r rest ih =>
    rw [List.foldl_cons, ih, rank_applyGrants]
    have hEnrolled : Enrolled (r :: rest) q ↔ r.name = q ∨ Enrolled rest q := by simp [Enrolled]
    grind

theorem specOf_none (h : name ∉ dbs.map Spec.name) : specOf dbs name = none := by
  refine List.find?_eq_none.mpr fun d hd => ?_
  rw [decide_eq_true_eq]
  rintro rfl
  exact h (List.mem_map_of_mem hd)

theorem rank_grantSpecs (h : (dbs.map Spec.name).Nodup) :
    (dbs.foldl (fun p d => grantAll d.name p d.grants) p).rank name q =
      max (p.rank name q) ((specOf dbs name).elim 0 (fun d => granted d.grants q)) := by
  induction dbs generalizing p with
  | nil => exact (Nat.max_zero _).symm
  | cons d rest ih =>
    obtain ⟨hFresh, hRest⟩ := List.nodup_cons.mp h
    rw [List.foldl_cons, ih hRest, rank_grantAll, specOf_cons]
    rcases Decidable.em (d.name = name) with rfl | hNe
    · rw [if_pos rfl, if_pos rfl, specOf_none hFresh]
      exact Nat.max_zero _
    · rw [if_neg (Ne.symm hNe), if_neg hNe]

theorem isOpen_grantAll (grants : List (String × Option Level)) : (grantAll name p grants).isOpen = p.isOpen := by
  unfold grantAll
  exact Policy.isOpen_foldl (fun _ g => Policy.isOpen_grantParsed g.1 g.2) grants

theorem isOpen_applyGrants (grants : List (DbName × Option Level)) :
    (applyGrants grants p principal).isOpen = p.isOpen := by
  unfold applyGrants
  exact Policy.isOpen_foldl (fun _ g => Policy.isOpen_grantParsed principal g.2) grants

end Ranks

namespace Config

variable {cfg : Config} {created : List Spec} {table : List Row}

theorem rank_load (db : DbName) (name : String) :
    (cfg.load created table).rank db name = max (cfg.asked created db name) (cfg.template table db name) := by
  rw [load, rank_applyRows, buildPolicy, rank_grantSpecs nodup_reconcile]
  exact congrArg (fun n => max n (cfg.template table db name)) (Nat.zero_max _)

theorem principals_of_controlPlane (h : cfg.controlPlane = true) : cfg.principals ≠ [] := by
  obtain ⟨admin, hAdmin⟩ := List.exists_mem_of_ne_nil _ (cfg.adminsSome h)
  exact List.ne_nil_of_mem (cfg.adminsKnown admin hAdmin)

theorem load_closed (h : cfg.authConfigured = true) : (cfg.load created table).isOpen = false := by
  have hOpen : (cfg.load created table).isOpen =
      !(!cfg.principals.isEmpty || anyGrants (cfg.reconcile created)) := by
    rw [load, Policy.isOpen_foldl, buildPolicy, Policy.isOpen_foldl]
    · rfl
    · exact fun p d => isOpen_grantAll d.grants
    · exact fun p r => isOpen_applyGrants cfg.enroll.grants
  rw [hOpen]
  cases hControl : cfg.controlPlane with
  | true => simp [principals_of_controlPlane hControl]
  | false =>
    rw [reconcile, hControl]
    exact congrArg Bool.not h

end Config

end QuicSql.Serverd
