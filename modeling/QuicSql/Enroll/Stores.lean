import QuicSql.Enroll.Steps

/-!
# The stores of an enrollment

The table, the keyring and the policy change for one name at a time. A step of a call is
read here for what it does to them and which locks it takes; the rest of the service is
left aside.
-/

namespace QuicSql.Enroll

open Authz Lib

def HoldsTemplate (cfg : Config) (p : Policy) (name : Name) : Prop :=
  ∀ g ∈ cfg.grants, ∀ level, g.2 = some level → p.Covers name g.1 level

def HoldsConfigured (base p : Policy) (name : Name) : Prop :=
  ∀ db, p.own db name = none ∨ p.own db name = base.own db name

def Call.keyringPending (cfg : Config) : Call → Option Name
  | .adding key _ | .purging key _ => some (cfg.principalName key)
  | .removing name => some name
  | _ => none

def Call.policyPending (cfg : Config) : Call → Option Name
  | .adding key _ | .granting key _ | .purging key _ => some (cfg.principalName key)
  | .removing name | .revoking name => some name
  | _ => none

variable {cfg : Config} {base : Policy}

theorem Call.policyPending_of_keyringPending {c : Call} {name : Name} (h : c.keyringPending cfg = some name) :
    c.policyPending cfg = some name := by
  cases c <;> first | exact h | cases h

/-! ## The updates of one name -/

section Stores

variable {table : List Row} {dyn : Key → Option Name} {p : Policy} {name other : Name}

theorem enrolledByKey_isSome {key : Key} (hRows : ∀ r ∈ table, r.name = cfg.principalName r.key)
    (h : (enrolledByKey table key).isSome) : Enrolled table (cfg.principalName key) := by
  obtain ⟨r, hr, hKey⟩ := List.find?_isSome.mp h
  exact ⟨r, hr, (hRows r hr).trans (congrArg cfg.principalName (of_decide_eq_true hKey))⟩

theorem mem_deleteEnrolled {r : Row} : r ∈ deleteEnrolled table name ↔ r ∈ table ∧ r.name ≠ name := by
  simp [deleteEnrolled]

theorem not_enrolled_deleteEnrolled : ¬ Enrolled (deleteEnrolled table name) name := by
  rintro ⟨r, hr, hName⟩
  exact (mem_deleteEnrolled.mp hr).2 hName

theorem enrolled_deleteEnrolled_of_ne (h : other ≠ name) :
    Enrolled (deleteEnrolled table name) other ↔ Enrolled table other := by
  constructor
  · rintro ⟨r, hr, hName⟩
    exact ⟨r, (mem_deleteEnrolled.mp hr).1, hName⟩
  · rintro ⟨r, hr, hName⟩
    exact ⟨r, mem_deleteEnrolled.mpr ⟨hr, hName ▸ h⟩, hName⟩

theorem deleteEnrolled_of_not (h : ¬ Enrolled table name) : deleteEnrolled table name = table :=
  List.filter_eq_self.mpr fun r hr => decide_eq_true fun hName => h ⟨r, hr, hName⟩

theorem enrolled_append {row : Row} : Enrolled (table ++ [row]) name ↔ Enrolled table name ∨ row.name = name := by
  constructor
  · rintro ⟨r, hr, hName⟩
    rcases List.mem_append.mp hr with hOld | hNew
    · exact .inl ⟨r, hOld, hName⟩
    · exact .inr (List.mem_singleton.mp hNew ▸ hName)
  · rintro (⟨r, hr, hName⟩ | hName)
    · exact ⟨r, List.mem_append_left _ hr, hName⟩
    · exact ⟨row, List.mem_append_right _ (List.mem_singleton_self row), hName⟩

theorem own_applyGrants_of_ne (grants : List (DbName × Option Level)) (h : name ≠ other) (db : DbName) :
    (applyGrants grants p name).own db other = p.own db other := by
  induction grants generalizing p with
  | nil => rfl
  | cons g rest ih => exact ih.trans (Policy.own_grantParsed_of_ne g.2 (.inr h))

theorem covers_applyGrants_of {db : DbName} {level : Level} (grants : List (DbName × Option Level))
    (h : p.Covers other db level) : (applyGrants grants p name).Covers other db level := by
  induction grants generalizing p with
  | nil => exact h
  | cons g rest ih => exact ih (h.grantParsed g.1 name g.2)

/-- Applying the template gives all of it, whatever was there. -/
theorem applyGrants_covers (grants : List (DbName × Option Level)) (g : DbName × Option Level) (hg : g ∈ grants)
    (level : Level) (hLevel : g.2 = some level) : (applyGrants grants p name).Covers name g.1 level := by
  induction grants generalizing p with
  | nil => cases hg
  | cons first rest ih =>
    rcases List.mem_cons.mp hg with rfl | hRest
    · refine covers_applyGrants_of rest ?_
      dsimp only
      rw [hLevel]
      exact Policy.covers_grant level
    · exact ih hRest

theorem own_grantProvision_of_ne (h : name ≠ other) (db : DbName) :
    (grantProvision cfg p name).own db other = p.own db other :=
  Policy.own_grantParsed_of_ne cfg.provisionLevel (.inr h)

theorem HoldsTemplate.grantProvision (h : HoldsTemplate cfg p other) :
    HoldsTemplate cfg (grantProvision cfg p name) other :=
  fun g hg level hLevel => (h g hg level hLevel).grantParsed _ _ _

theorem removeKeyringName_eq_some {key : Key} :
    removeKeyringName dyn name key = some other ↔ dyn key = some other ∧ other ≠ name := by
  simp [removeKeyringName, Option.filter_eq_some_iff]

theorem addKeyring_some {key k : Key} (h : addKeyring cfg dyn key name k = some other) :
    dyn k = some other ∨ name = other := by
  unfold addKeyring at h
  split at h
  · exact .inl h
  · rcases Decidable.em (k = key) with rfl | hNe
    · rw [Function.update_self] at h
      exact .inr (Option.some.inj h)
    · rw [Function.update_of_ne hNe] at h
      exact .inl h

end Stores

/-! ## What a step does to the stores -/

namespace Service

/-- Call `c` moves on to `d`. Both are in their place between updates, except where a store
changes. -/
inductive Effect (cfg : Config) (s t : Service) : Call → Call → Prop
  | quiet {c d : Call} : t.table = s.table → t.dynKeyring = s.dynKeyring → t.policy = s.policy →
      c.policyPending cfg = none → d.policyPending cfg = none →
      (∀ key code, d = .provisioning key code → Enrolled s.table (cfg.principalName key)) → Effect cfg s t c d
  | put {key : Key} {code : Option Hash} : t.table = s.table ++ [⟨cfg.principalName key, key⟩] →
      t.dynKeyring = s.dynKeyring → t.policy = s.policy → Effect cfg s t (.putting key code) (.adding key code)
  | add {key : Key} {code : Option Hash} : t.table = s.table →
      t.dynKeyring = addKeyring cfg s.dynKeyring key (cfg.principalName key) → t.policy = s.policy →
      Effect cfg s t (.adding key code) (.granting key code)
  | grant {key : Key} {code : Option Hash} : t.table = s.table → t.dynKeyring = s.dynKeyring →
      t.policy = applyGrants cfg.grants s.policy (cfg.principalName key) →
      Effect cfg s t (.granting key code) (afterGrants cfg key code)
  | provision {key : Key} {code : Option Hash} {answer : Answer} : t.table = s.table →
      t.dynKeyring = s.dynKeyring → t.policy = grantProvision cfg s.policy (cfg.principalName key) →
      Effect cfg s t (.provisioning key code) (.returned answer)
  | delete {name : Name} : t.table = deleteEnrolled s.table name → t.dynKeyring = s.dynKeyring →
      t.policy = s.policy → Effect cfg s t (.deleting name) (.removing name)
  | rollback {key : Key} {code : Option Hash} : t.table = deleteEnrolled s.table (cfg.principalName key) →
      t.dynKeyring = s.dynKeyring → t.policy = s.policy → Effect cfg s t (.rollingBack key code) (.purging key code)
  | remove {name : Name} : t.table = s.table → t.dynKeyring = removeKeyringName s.dynKeyring name →
      t.policy = s.policy → Effect cfg s t (.removing name) (.revoking name)
  | revoke {name : Name} : t.table = s.table → t.dynKeyring = s.dynKeyring →
      t.policy = s.policy.revokePrincipal name → Effect cfg s t (.revoking name) (.discounting name)
  | purge {key : Key} {code : Option Hash} : t.table = s.table →
      t.dynKeyring = removeKeyringName s.dynKeyring (cfg.principalName key) →
      t.policy = s.policy.revokePrincipal (cfg.principalName key) →
      Effect cfg s t (.purging key code) (afterPurge key code)

def Moves (cfg : Config) (s t : Service) (i : Nat) (c : Call) : Prop :=
  ∃ d, t.calls = s.calls.set i d ∧ Effect cfg s t c d ∧
    ∀ l ∈ d.locks cfg, l ∈ c.locks cfg ∨ Free (Call.locks cfg) s.calls l

variable {s t : Service} {i : Nat} {ok : Bool}

/-- The stores stay as they are; a rollback that finds no row has nothing to erase. -/
theorem Passes.effect {c d : Call} (h : Passes cfg s ok c d)
    (hRows : ∀ r ∈ s.table, r.name = cfg.principalName r.key)
    (hOk : (∃ key code, c = .rollingBack key code) → ok = true) (calls : List Call) :
    Effect cfg s { s with calls := calls } c d := by
  cases h with
  | @confirmed key code hFound =>
    refine .quiet rfl rfl rfl rfl rfl fun key' code' hEq => ?_
    cases hEq
    exact enrolledByKey_isSome hRows hFound
  | @notErased key code hNot =>
    rcases hNot with hFalse | hAbsent
    · cases hFalse.symm.trans (hOk ⟨key, code, rfl⟩)
    · exact .rollback (deleteEnrolled_of_not hAbsent).symm rfl rfl
  | @notPut key code =>
    cases code with
    | none => exact .quiet rfl rfl rfl rfl rfl fun _ _ hEq => by cases hEq
    | some hash => exact .quiet rfl rfl rfl rfl rfl fun _ _ hEq => by cases hEq
  | _ => exact .quiet rfl rfl rfl rfl rfl fun _ _ hEq => by cases hEq

theorem Takes.effect {c d : Call} {u : Service} (h : Takes cfg s ok c d u)
    (hRows : ∀ r ∈ s.table, r.name = cfg.principalName r.key)
    (hOk : (∃ key code, c = .rollingBack key code) → ok = true) (calls : List Call) :
    Effect cfg s { u with calls := calls } c d := by
  cases h with
  | passes hPass => exact hPass.effect hRows hOk calls
  | put => exact .put rfl rfl rfl
  | add => exact .add rfl rfl rfl
  | grant => exact .grant rfl rfl rfl
  | provision => exact .provision rfl rfl rfl
  | rollback => exact .rollback rfl rfl rfl
  | purge => exact .purge rfl rfl rfl
  | delete => exact .delete rfl rfl rfl
  | remove => exact .remove rfl rfl rfl
  | revoke => exact .revoke rfl rfl rfl
  | consume | unwind | release | discount | sweep | store =>
    exact .quiet rfl rfl rfl rfl rfl fun _ _ hEq => by cases hEq

theorem Takes.moves {c d : Call} {u : Service} (h : Takes cfg s ok c d u)
    (hRows : ∀ r ∈ s.table, r.name = cfg.principalName r.key)
    (hOk : (∃ key code, c = .rollingBack key code) → ok = true) :
    Moves cfg s { u with calls := s.calls.set i d } i c :=
  ⟨d, rfl, h.effect hRows hOk _, h.locks⟩

end Service

end QuicSql.Enroll
