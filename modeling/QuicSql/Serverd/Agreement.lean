import QuicSql.Enroll.Stores
import QuicSql.Serverd.Requests

/-!
# The live and the loaded policy

The ranks of the live policy are those a restart would load, on every served database and
for everybody whose own grants count. Each lemma is about one kind of change to the stores.
-/

namespace QuicSql.Serverd

open Authz Enroll Provision Admin Lib

namespace Config

variable (cfg : Config)

/-- The name has a credential that a deletion leaves. -/
def Lasting (sessions : List Name) (name : String) : Prop := name ∈ cfg.rosterNames ∨ name ∈ sessions

/-- Those whose own grants count. -/
def Concerns (table : List Row) (sessions : List Name) (name : String) : Prop :=
  name = wildcard ∨ name ∈ cfg.principals ∨ Enrolled (cfg.rows table) name ∨ cfg.Lasting sessions name

structure Inv (s : Server) (sessions : List Name) : Prop where
  closed : s.policy.isOpen = false
  idle : ∀ db, s.world.backends db = none → s.world.entries db = none
  listed : ∀ db, (s.world.backends db).isSome → (specOf (cfg.reconcile s.world.databases) db).isSome
  named : ∀ r ∈ s.table, r.name = cfg.enroll.principalName r.key
  keyring : ∀ key name, s.dynKeyring key = some name → Enrolled (cfg.rows s.table) name
  agrees : ∀ db, (s.world.backends db).isSome → ∀ name, cfg.Concerns s.table sessions name →
    s.policy.rank db name = (cfg.load s.world.databases s.table).rank db name

variable {cfg} {s : Server} {sessions : List Name} {w : World} {name : Name}

theorem Inv.withSessions (h : cfg.Inv s sessions) {sessions' : List Name}
    (hOld : ∀ q ∈ sessions', cfg.Concerns s.table sessions q) : cfg.Inv s sessions' := by
  refine ⟨h.closed, h.idle, h.listed, h.named, h.keyring, fun db hSome q hq => h.agrees db hSome q ?_⟩
  rcases hq with hWild | hStatic | hEnrolled | hRoster | hSession
  · exact .inl hWild
  · exact .inr (.inl hStatic)
  · exact .inr (.inr (.inl hEnrolled))
  · exact .inr (.inr (.inr (.inl hRoster)))
  · exact hOld q hSession

theorem Inv.same (h : cfg.Inv s sessions) (hSame : s.world.Same w) : cfg.Inv { s with world := w } sessions := by
  obtain ⟨hBackends, hEntries, hDatabases⟩ := hSame
  refine ⟨h.closed, fun db => ?_, fun db => ?_, h.named, h.keyring, fun db => ?_⟩
  · dsimp only
    rw [hBackends, hEntries]
    exact h.idle db
  · dsimp only
    rw [hBackends, hDatabases]
    exact h.listed db
  · dsimp only
    rw [hBackends, hDatabases]
    exact h.agrees db

theorem Inv.opened (h : cfg.Inv s sessions) {spec : Spec} {policy : Policy} (hControl : cfg.controlPlane = true)
    (hValid : cfg.validates spec = true)
    (hBackends : w.backends = Function.update s.world.backends spec.name (some ⟨spec.path⟩))
    (hEntries : w.entries = Function.update s.world.entries spec.name (some ⟨false, 0, false⟩))
    (hDatabases : w.databases = if cfg.controlPlane then putSpec s.world.databases spec else s.world.databases)
    (hClosed : policy.isOpen = false)
    (hOther : ∀ db, db ≠ spec.name → ∀ q, policy.rank db q = s.policy.rank db q)
    (hNew : ∀ q, cfg.Concerns s.table sessions q →
      policy.rank spec.name q = max (granted spec.grants q) (cfg.template s.table spec.name q)) :
    cfg.Inv { s with world := w, policy := policy } sessions := by
  have hSpec : ∀ db, specOf (cfg.reconcile w.databases) db =
      if spec.name = db then some spec else specOf (cfg.reconcile s.world.databases) db := by
    intro db
    rw [hDatabases, if_pos hControl]
    exact specOf_reconcile_put hControl hValid
  refine ⟨hClosed, fun db hNone => ?_, fun db hSome => ?_, h.named, h.keyring, fun db hSome q hq => ?_⟩
  · dsimp only at hNone ⊢
    rw [hBackends] at hNone
    rcases Decidable.em (db = spec.name) with rfl | hNe
    · rw [Function.update_self] at hNone
      cases hNone
    · rw [Function.update_of_ne hNe] at hNone
      rw [hEntries, Function.update_of_ne hNe]
      exact h.idle db hNone
  · dsimp only at hSome ⊢
    rw [hSpec]
    split
    · rfl
    · rename_i hNe
      rw [hBackends, Function.update_of_ne (Ne.symm hNe)] at hSome
      exact h.listed db hSome
  · dsimp only at hSome ⊢
    rw [rank_load, asked, hSpec]
    rcases Decidable.em (db = spec.name) with rfl | hNe
    · rw [if_pos rfl]
      exact hNew q hq
    · rw [hBackends, Function.update_of_ne hNe] at hSome
      rw [if_neg (Ne.symm hNe), hOther db hNe q, h.agrees db hSome q hq, rank_load]
      rfl

section Dropped

variable {gone db : DbName}

theorem served_of_dropped (hBackends : w.backends = Function.update s.world.backends gone none)
    (hSome : (w.backends db).isSome) : db ≠ gone ∧ (s.world.backends db).isSome := by
  rw [hBackends] at hSome
  rcases Decidable.em (db = gone) with rfl | hNe
  · rw [Function.update_self] at hSome
    cases hSome
  · rw [Function.update_of_ne hNe] at hSome
    exact ⟨hNe, hSome⟩

theorem specOf_dropped (hControl : cfg.controlPlane = true)
    (hDatabases : w.databases =
      if cfg.controlPlane && true then deleteSpec s.world.databases gone else s.world.databases)
    (hNe : db ≠ gone) : specOf (cfg.reconcile w.databases) db = specOf (cfg.reconcile s.world.databases) db := by
  rw [hDatabases, hControl]
  exact specOf_reconcile_delete gone hNe

end Dropped

theorem Inv.dropped (h : cfg.Inv s sessions) {policy : Policy} {gone : DbName} (hControl : cfg.controlPlane = true)
    (hBackends : w.backends = Function.update s.world.backends gone none)
    (hEntries : w.entries = Function.update s.world.entries gone none)
    (hDatabases : w.databases =
      if cfg.controlPlane && true then deleteSpec s.world.databases gone else s.world.databases)
    (hClosed : policy.isOpen = false)
    (hOther : ∀ db, db ≠ gone → ∀ q, policy.rank db q = s.policy.rank db q) :
    cfg.Inv { s with world := w, policy := policy } sessions := by
  refine ⟨hClosed, fun db hNone => ?_, fun db hSome => ?_, h.named, h.keyring, fun db hSome q hq => ?_⟩
  · dsimp only at hNone ⊢
    rw [hEntries]
    rcases Decidable.em (db = gone) with rfl | hNe
    · exact Function.update_self _ _ _
    · rw [hBackends, Function.update_of_ne hNe] at hNone
      rw [Function.update_of_ne hNe]
      exact h.idle db hNone
  · obtain ⟨hNe, hOld⟩ := served_of_dropped hBackends hSome
    dsimp only
    rw [specOf_dropped hControl hDatabases hNe]
    exact h.listed db hOld
  · obtain ⟨hNe, hOld⟩ := served_of_dropped hBackends hSome
    dsimp only
    rw [hOther db hNe q, h.agrees db hOld q hq, rank_load, rank_load, asked, asked,
      specOf_dropped hControl hDatabases hNe]

theorem Inv.raise (h : cfg.Inv s sessions) {db : DbName} (level : Option Level)
    (hLevel : (s.world.backends db).isSome →
      level.elim 0 Level.rank ≤ (cfg.load s.world.databases s.table).rank db name) :
    cfg.Inv { s with policy := s.policy.grantParsed db name level } sessions := by
  refine ⟨(Policy.isOpen_grantParsed name level).trans h.closed, h.idle, h.listed, h.named, h.keyring,
    fun db' hSome q hq => ?_⟩
  dsimp only at hSome hq ⊢
  rw [Policy.rank_grantParsed, h.agrees db' hSome q hq]
  split
  · rename_i hBoth
    obtain ⟨rfl, rfl⟩ := hBoth
    exact Nat.max_eq_left (hLevel hSome)
  · rfl

theorem rows_enrolls (h : cfg.enrolls = true) (table : List Row) : cfg.rows table = table := if_pos h

section Put

variable {key : Key} {q : String}

theorem enrolled_put (h : cfg.enrolls = true) :
    Enrolled (cfg.rows (cfg.putEnrolled s key).table) q ↔
      Enrolled (cfg.rows s.table) q ∨ cfg.enroll.principalName key = q := by
  rw [rows_enrolls h, rows_enrolls h]
  exact enrolled_append

theorem template_put_self (h : cfg.enrolls = true) (db : DbName) :
    cfg.template (cfg.putEnrolled s key).table db (cfg.enroll.principalName key) = granted cfg.enroll.grants db :=
  if_pos ((enrolled_put h).mpr (.inr rfl))

theorem template_put_of_ne (h : cfg.enrolls = true) (hNe : q ≠ cfg.enroll.principalName key) (db : DbName) :
    cfg.template (cfg.putEnrolled s key).table db q = cfg.template s.table db q := by
  have hSame : Enrolled (cfg.rows (cfg.putEnrolled s key).table) q ↔ Enrolled (cfg.rows s.table) q :=
    (enrolled_put h).trans (or_iff_left (Ne.symm hNe))
  simp only [template, hSame]

theorem concerns_put_of_ne (h : cfg.enrolls = true) (hNe : q ≠ cfg.enroll.principalName key)
    (hq : cfg.Concerns (cfg.putEnrolled s key).table sessions q) : cfg.Concerns s.table sessions q := by
  rw [Concerns, enrolled_put h, or_iff_left (Ne.symm hNe)] at hq
  exact hq

theorem rank_put (db : DbName) :
    (cfg.putEnrolled s key).policy.rank db q =
      if q = cfg.enroll.principalName key then max (s.policy.rank db q) (granted cfg.enroll.grants db)
      else s.policy.rank db q :=
  rank_applyGrants cfg.enroll.grants db

end Put

/-- An enrollment gives the new name what a restart gives it. -/
theorem Inv.put (h : cfg.Inv s sessions) (hEnrolls : cfg.enrolls = true) (key : Key)
    (hGrants : ∀ db, (s.world.backends db).isSome →
      max (s.policy.rank db (cfg.enroll.principalName key)) (granted cfg.enroll.grants db) =
        max (cfg.asked s.world.databases db (cfg.enroll.principalName key)) (granted cfg.enroll.grants db)) :
    cfg.Inv (cfg.putEnrolled s key) sessions := by
  refine ⟨(isOpen_applyGrants _).trans h.closed, h.idle, h.listed, fun r hr => ?_, fun k q hk => ?_,
    fun db hSome q hq => ?_⟩
  · rcases List.mem_append.mp hr with hOld | hNew
    · exact h.named r hOld
    · cases List.mem_singleton.mp hNew
      rfl
  · rw [enrolled_put hEnrolls]
    exact (addKeyring_some hk).imp_left (h.keyring k q)
  · rw [rank_put, rank_load]
    rcases Decidable.em (q = cfg.enroll.principalName key) with rfl | hNe
    · rw [if_pos rfl, template_put_self hEnrolls]
      exact hGrants db hSome
    · rw [if_neg hNe, template_put_of_ne hEnrolls hNe, h.agrees db hSome q (concerns_put_of_ne hEnrolls hNe hq),
        rank_load]
      rfl

/-- A name loses everything. If it keeps a credential, no spec may grant it anything. -/
theorem Inv.purge (h : cfg.Inv s sessions) (hReserved : hasEnrolledPrefix name = true) (count : Int)
    (hUnpromised : cfg.Lasting sessions name →
      ∀ db, (s.world.backends db).isSome → cfg.asked s.world.databases db name = 0) :
    cfg.Inv { s with
      table := deleteEnrolled s.table name
      dynKeyring := removeKeyringName s.dynKeyring name
      policy := s.policy.revokePrincipal name
      count := count } sessions := by
  have hRows : cfg.rows (deleteEnrolled s.table name) = deleteEnrolled (cfg.rows s.table) name := by
    unfold rows
    split <;> rfl
  refine ⟨h.closed, h.idle, h.listed, fun r hr => h.named r (mem_deleteEnrolled.mp hr).1, fun k q hk => ?_,
    fun db hSome q hq => ?_⟩
  · obtain ⟨hOld, hNe⟩ := removeKeyringName_eq_some.mp hk
    dsimp only
    rw [hRows, enrolled_deleteEnrolled_of_ne hNe]
    exact h.keyring k q hOld
  · dsimp only at hSome ⊢
    rw [Policy.rank_revokePrincipal, rank_load, template, hRows]
    rw [Concerns, hRows] at hq
    rcases Decidable.em (q = name) with rfl | hNe
    · have hLasting : cfg.Lasting sessions q := by
        rcases hq with rfl | hStatic | hEnrolled | hLasting
        · cases hReserved
        · rw [cfg.unreserved q hStatic] at hReserved
          cases hReserved
        · exact absurd hEnrolled not_enrolled_deleteEnrolled
        · exact hLasting
      rw [if_pos rfl, if_neg not_enrolled_deleteEnrolled, hUnpromised hLasting db hSome]
      rfl
    · rw [enrolled_deleteEnrolled_of_ne hNe] at hq
      rw [if_neg hNe, h.agrees db hSome q hq, rank_load, template]
      simp only [enrolled_deleteEnrolled_of_ne hNe]

end Config

end QuicSql.Serverd
