import QuicSql.Enroll.Stores

/-!
# The stores agree

The table decides who is enrolled. The keyring and the policy of a name agree with it
unless a call is about to update them, provided that what such a call is about to do still
fits the table: a deletion takes the key and the grants of a name that nobody enrolled
again, and an enrollment adds those of a row that nobody deleted.
-/

namespace QuicSql.Enroll

open Authz Lib

variable {cfg : Config} {base : Policy}

namespace Service

structure Consistent (cfg : Config) (base : Policy) (s : Service) : Prop where
  keyring : ∀ key name, cfg.static key = false → (⟨name, key⟩ ∈ s.table ↔ s.dynKeyring key = some name)
  enrolled : ∀ name, Enrolled s.table name → HoldsTemplate cfg s.policy name
  others : ∀ name, ¬ Enrolled s.table name → HoldsConfigured base s.policy name

/-- The store answers, and an update of the keyring or the policy still fits the table. -/
def Fits (cfg : Config) (s : Service) : Action → Prop
  | .step i ok =>
    match s.calls[i]? with
    | some (.provisioning ..) | some (.dropping _) => True
    | some (.adding key _) | some (.granting key _) => ok = true ∧ Enrolled s.table (cfg.principalName key)
    | some (.removing name) | some (.revoking name) => ok = true ∧ ¬ Enrolled s.table name
    | _ => ok = true
  | _ => True

instance (cfg : Config) (s : Service) (a : Action) : Decidable (Fits cfg s a) := by
  unfold Fits
  repeat' split
  all_goals infer_instance

variable {s t : Service} {i : Nat} {ok : Bool}

/-! ## The invariant -/

/-- The stores of one name: the keyring and the policy follow the table, but for pending
updates. A rollback has deleted the row, and an enrollment that provisions still has it. -/
structure Settled (cfg : Config) (base : Policy) (s : Service) (name : Name) : Prop where
  keyring : (∀ c ∈ s.calls, c.keyringPending cfg ≠ some name) → ∀ key, cfg.principalName key = name →
    cfg.static key = false → (Enrolled s.table name ↔ s.dynKeyring key = some name)
  policy : (∀ c ∈ s.calls, c.policyPending cfg ≠ some name) →
    (Enrolled s.table name → HoldsTemplate cfg s.policy name) ∧
      (¬ Enrolled s.table name → HoldsConfigured base s.policy name)
  purging : ∀ key code, cfg.principalName key = name → Call.purging key code ∈ s.calls → ¬ Enrolled s.table name
  provisioning : ∀ key code, cfg.principalName key = name → Call.provisioning key code ∈ s.calls →
    Enrolled s.table name

structure Agrees (cfg : Config) (base : Policy) (s : Service) : Prop where
  rows : ∀ r ∈ s.table, r.name = cfg.principalName r.key
  keys : ∀ key name, s.dynKeyring key = some name → name = cfg.principalName key ∧ cfg.static key = false
  exclusive : Exclusive (Call.locks cfg) s.calls
  settled : ∀ name, Settled cfg base s name

structure Elsewhere (cfg : Config) (s t : Service) (name : Name) : Prop where
  table : ∀ n, n ≠ name → (Enrolled t.table n ↔ Enrolled s.table n)
  dyn : ∀ key, cfg.principalName key ≠ name → t.dynKeyring key = s.dynKeyring key
  own : ∀ db n, n ≠ name → t.policy.own db n = s.policy.own db n

theorem holdsTemplate_congr {p q : Policy} {name : Name} (h : ∀ db, q.own db name = p.own db name)
    (hHolds : HoldsTemplate cfg p name) : HoldsTemplate cfg q name := by
  intro g hg level hLevel
  rw [Policy.Covers, h]
  exact hHolds g hg level hLevel

theorem holdsConfigured_congr {p q : Policy} {name : Name} (h : ∀ db, q.own db name = p.own db name)
    (hHolds : HoldsConfigured base p name) : HoldsConfigured base q name := by
  intro db
  rw [h]
  exact hHolds db

theorem Settled.carry {c d : Call} {name : Name} (h : Settled cfg base s name) (hc : s.calls[i]? = some c)
    (hCalls : t.calls = s.calls.set i d) (hTable : Enrolled t.table name ↔ Enrolled s.table name)
    (hDyn : ∀ key, cfg.principalName key = name → t.dynKeyring key = s.dynKeyring key)
    (hOwn : ∀ db, t.policy.own db name = s.policy.own db name) (hPending : c.policyPending cfg ≠ some name)
    (hPurging : ∀ key code, cfg.principalName key = name → d ≠ .purging key code)
    (hProvisioning : ∀ key code, cfg.principalName key = name → d = .provisioning key code → Enrolled s.table name) :
    Settled cfg base t name := by
  have hStay : ∀ e ∈ s.calls, e = c ∨ e ∈ t.calls := fun e he => hCalls ▸ mem_set_of_mem hc he
  have hFrom : ∀ e ∈ t.calls, e ∈ s.calls ∨ e = d := fun e he => List.mem_or_eq_of_mem_set (hCalls ▸ he)
  refine ⟨?_, ?_, ?_, ?_⟩ <;> rw [hTable]
  · intro hNone key hName hStatic
    rw [hDyn key hName]
    refine h.keyring (fun e he hEq => ?_) key hName hStatic
    rcases hStay e he with rfl | hIn
    · exact hPending (Call.policyPending_of_keyringPending hEq)
    · exact hNone e hIn hEq
  · intro hNone
    obtain ⟨hIn, hOut⟩ := h.policy fun e he hEq => by
      rcases hStay e he with rfl | hIn
      · exact hPending hEq
      · exact hNone e hIn hEq
    exact ⟨fun hEnrolled => holdsTemplate_congr hOwn (hIn hEnrolled), fun hNot => holdsConfigured_congr hOwn (hOut hNot)⟩
  · intro key code hName hMem
    rcases hFrom _ hMem with hOld | hNew
    · exact h.purging key code hName hOld
    · exact absurd hNew.symm (hPurging key code hName)
  · intro key code hName hMem
    rcases hFrom _ hMem with hOld | hNew
    · exact h.provisioning key code hName hOld
    · exact hProvisioning key code hName hNew.symm

theorem Settled.of_enrolled {name : Name} (hIn : Enrolled s.table name)
    (hPurging : ∀ key code, cfg.principalName key = name → Call.purging key code ∉ s.calls)
    (hKeyring : (∀ c ∈ s.calls, c.keyringPending cfg ≠ some name) → ∀ key, cfg.principalName key = name →
      cfg.static key = false → s.dynKeyring key = some name)
    (hPolicy : (∀ c ∈ s.calls, c.policyPending cfg ≠ some name) → HoldsTemplate cfg s.policy name) :
    Settled cfg base s name where
  keyring := fun hNone key hName hStatic => iff_of_true hIn (hKeyring hNone key hName hStatic)
  policy := fun hNone => ⟨fun _ => hPolicy hNone, fun hNot => absurd hIn hNot⟩
  purging := fun key code hName hMem => absurd hMem (hPurging key code hName)
  provisioning := fun _ _ _ _ => hIn

theorem Settled.of_absent {name : Name} (hOut : ¬ Enrolled s.table name)
    (hProvisioning : ∀ key code, cfg.principalName key = name → Call.provisioning key code ∉ s.calls)
    (hKeyring : (∀ c ∈ s.calls, c.keyringPending cfg ≠ some name) → ∀ key, cfg.principalName key = name →
      s.dynKeyring key ≠ some name)
    (hPolicy : (∀ c ∈ s.calls, c.policyPending cfg ≠ some name) → HoldsConfigured base s.policy name) :
    Settled cfg base s name where
  keyring := fun hNone key hName _ => iff_of_false hOut (hKeyring hNone key hName)
  policy := fun hNone => ⟨fun hIn => absurd hIn hOut, fun _ => hPolicy hNone⟩
  purging := fun _ _ _ _ => hOut
  provisioning := fun key code hName hMem => absurd hMem (hProvisioning key code hName)

namespace Agrees

theorem change (h : Agrees cfg base s) (name : Name) {c d : Call} (hc : s.calls[i]? = some c)
    (hCalls : t.calls = s.calls.set i d) (hLocks : ∀ l ∈ d.locks cfg, l ∈ c.locks cfg ∨ Free (Call.locks cfg) s.calls l)
    (hPending : ∀ m, c.policyPending cfg = some m → m = name)
    (hPurging : ∀ key code, d = .purging key code → cfg.principalName key = name)
    (hProvisioning : ∀ key code, d ≠ .provisioning key code)
    (hRows : ∀ r ∈ t.table, r.name = cfg.principalName r.key)
    (hKeys : ∀ key n, t.dynKeyring key = some n → n = cfg.principalName key ∧ cfg.static key = false)
    (hElse : Elsewhere cfg s t name) (hSettled : Settled cfg base t name) : Agrees cfg base t := by
  refine ⟨hRows, hKeys, hCalls ▸ h.exclusive.set hc hLocks, fun n => ?_⟩
  rcases Decidable.em (n = name) with rfl | hNe
  · exact hSettled
  · refine (h.settled n).carry hc hCalls (hElse.table n hNe) ?_ (fun db => hElse.own db n hNe) ?_ ?_ ?_
    · exact fun key hName => hElse.dyn key (hName ▸ hNe)
    · exact fun hEq => hNe (hPending n hEq)
    · exact fun key code hName hEq => hNe (hName.symm.trans (hPurging key code hEq))
    · exact fun key code _ hEq => absurd hEq (hProvisioning key code)

/-- Nobody purges a name that is enrolled, and nobody provisions one that is not. -/
theorem no_purging (h : Agrees cfg base s) {name : Name} (hIn : Enrolled s.table name) (key : Key)
    (code : Option Hash) (hName : cfg.principalName key = name) : Call.purging key code ∉ s.calls :=
  fun hMem => (h.settled name).purging key code hName hMem hIn

theorem no_provisioning (h : Agrees cfg base s) {name : Name} (hOut : ¬ Enrolled s.table name) (key : Key)
    (code : Option Hash) (hName : cfg.principalName key = name) : Call.provisioning key code ∉ s.calls :=
  fun hMem => hOut ((h.settled name).provisioning key code hName hMem)

theorem not_mem_of_lock (h : Agrees cfg base s) {c e : Call} {l : Lock} (hc : s.calls[i]? = some c)
    (hlc : l ∈ c.locks cfg) (hle : l ∈ e.locks cfg) (hNe : e ≠ c) : e ∉ s.calls := by
  intro hMem
  obtain ⟨j, hj⟩ := List.getElem?_of_mem hMem
  cases h.exclusive hj hc hle hlc
  exact hNe (Option.some.inj (hj.symm.trans hc))

theorem not_mem_set {d e : Call} (hCalls : t.calls = s.calls.set i d) (hNe : e ≠ d) (hNot : e ∉ s.calls) :
    e ∉ t.calls := by
  intro hMem
  rcases List.mem_or_eq_of_mem_set (hCalls ▸ hMem) with hOld | hNew
  · exact hNot hOld
  · exact hNe hNew

theorem mem_set_self {c d : Call} (hc : s.calls[i]? = some c) (hCalls : t.calls = s.calls.set i d) : d ∈ t.calls := by
  rw [hCalls]
  exact Lib.mem_set_self hc

theorem none_pending (pending : Call → Option Name) {c d : Call} {name : Name} (hc : s.calls[i]? = some c)
    (hCalls : t.calls = s.calls.set i d) (hOld : pending c ≠ some name)
    (hNone : ∀ e ∈ t.calls, pending e ≠ some name) : ∀ e ∈ s.calls, pending e ≠ some name := by
  intro e he
  rcases mem_set_of_mem (d := d) hc he with rfl | hIn
  · exact hOld
  · exact hNone e (hCalls ▸ hIn)

theorem quiet (h : Agrees cfg base s) {c d : Call} (hc : s.calls[i]? = some c) (hCalls : t.calls = s.calls.set i d)
    (hLocks : ∀ l ∈ d.locks cfg, l ∈ c.locks cfg ∨ Free (Call.locks cfg) s.calls l) (hTable : t.table = s.table)
    (hDyn : t.dynKeyring = s.dynKeyring) (hPolicy : t.policy = s.policy) (hPendingC : c.policyPending cfg = none)
    (hPendingD : d.policyPending cfg = none)
    (hProvisioning : ∀ key code, d = .provisioning key code → Enrolled s.table (cfg.principalName key)) :
    Agrees cfg base t := by
  refine ⟨hTable ▸ h.rows, hDyn ▸ h.keys, hCalls ▸ h.exclusive.set hc hLocks, fun name => ?_⟩
  refine (h.settled name).carry hc hCalls (by rw [hTable]) (fun _ _ => by rw [hDyn]) (fun _ => by rw [hPolicy]) ?_ ?_ ?_
  · rw [hPendingC]
    exact fun hEq => by cases hEq
  · rintro key code - rfl
    cases hPendingD
  · rintro key code rfl hEq
    exact hProvisioning key code hEq

theorem put (h : Agrees cfg base s) {key : Key} {code : Option Hash} (hc : s.calls[i]? = some (.putting key code))
    (hCalls : t.calls = s.calls.set i (.adding key code))
    (hTable : t.table = s.table ++ [⟨cfg.principalName key, key⟩]) (hDyn : t.dynKeyring = s.dynKeyring)
    (hPolicy : t.policy = s.policy) : Agrees cfg base t := by
  have hMem := mem_set_self hc hCalls
  refine h.change (cfg.principalName key) hc hCalls (fun _ hl => .inl hl) (fun _ hEq => by cases hEq)
    (fun _ _ hEq => by cases hEq) (fun _ _ hEq => by cases hEq) ?_ (hDyn ▸ h.keys)
    ⟨?_, fun _ _ => by rw [hDyn], fun _ _ _ => by rw [hPolicy]⟩ ?_
  · intro r hr
    rcases List.mem_append.mp (hTable ▸ hr) with hOld | hNew
    · exact h.rows r hOld
    · rw [List.mem_singleton.mp hNew]
  · intro n hNe
    rw [hTable, enrolled_append]
    exact or_iff_left (fun hEq => hNe hEq.symm)
  · refine .of_enrolled ?_ ?_ (fun hNone => absurd rfl (hNone _ hMem)) (fun hNone => absurd rfl (hNone _ hMem))
    · rw [hTable, enrolled_append]
      exact .inr rfl
    · intro key' code' _
      refine not_mem_set hCalls (fun hEq => by cases hEq) ?_
      exact h.not_mem_of_lock hc (List.mem_singleton_self _) (List.mem_cons_of_mem _ (List.mem_singleton_self _))
        (fun hEq => by cases hEq)

theorem add (hInj : Function.Injective cfg.principalName) (h : Agrees cfg base s) {key : Key} {code : Option Hash}
    (hc : s.calls[i]? = some (.adding key code)) (hCalls : t.calls = s.calls.set i (.granting key code))
    (hIn : Enrolled s.table (cfg.principalName key)) (hTable : t.table = s.table)
    (hDyn : t.dynKeyring = addKeyring cfg s.dynKeyring key (cfg.principalName key)) (hPolicy : t.policy = s.policy) :
    Agrees cfg base t := by
  have hMem := mem_set_self hc hCalls
  have hOther : ∀ key', key' ≠ key → t.dynKeyring key' = s.dynKeyring key' := by
    intro key' hNe
    rw [hDyn, addKeyring]
    split
    · rfl
    · exact Function.update_of_ne hNe _ _
  have hSelf : cfg.static key = false → t.dynKeyring key = some (cfg.principalName key) := by
    intro hStatic
    rw [hDyn, addKeyring, hStatic]
    exact Function.update_self _ _ _
  refine h.change (cfg.principalName key) hc hCalls (fun _ hl => .inl hl) (fun _ hEq => (Option.some.inj hEq).symm)
    (fun _ _ hEq => by cases hEq) (fun _ _ hEq => by cases hEq) (hTable ▸ h.rows) ?_ ⟨fun _ _ => by rw [hTable], ?_, fun _ _ _ => by rw [hPolicy]⟩ ?_
  · intro key' n hSome
    rcases Decidable.em (key' = key) with rfl | hNe
    · cases hStatic : cfg.static key' with
      | true =>
        rw [hDyn, addKeyring, hStatic] at hSome
        exact absurd (h.keys key' n hSome).2 (by simp [hStatic])
      | false => exact ⟨Option.some.inj (hSome.symm.trans (hSelf hStatic)), rfl⟩
    · exact h.keys key' n (hOther key' hNe ▸ hSome)
  · exact fun key' hNe => hOther key' fun hEq => hNe (congrArg cfg.principalName hEq)
  · refine .of_enrolled (hTable ▸ hIn) ?_ ?_ (fun hNone => absurd rfl (hNone _ hMem))
    · exact fun key' code' hName => not_mem_set hCalls (fun hEq => by cases hEq) (h.no_purging hIn key' code' hName)
    · rintro - key' hName hStatic
      cases hInj hName
      exact hSelf hStatic

theorem dyn_of_enrolled (h : Agrees cfg base s) {name : Name} (hIn : Enrolled s.table name)
    (hNone : ∀ c ∈ s.calls, c.keyringPending cfg ≠ some name) (key : Key) (hName : cfg.principalName key = name)
    (hStatic : cfg.static key = false) : s.dynKeyring key = some name :=
  ((h.settled name).keyring hNone key hName hStatic).mp hIn

/-- The template, or the grant of the provisioned database, is given to an enrolled name. -/
theorem raise (h : Agrees cfg base s) {c d : Call} {name : Name} (hc : s.calls[i]? = some c)
    (hCalls : t.calls = s.calls.set i d) (hLocks : ∀ l ∈ d.locks cfg, l ∈ c.locks cfg ∨ Free (Call.locks cfg) s.calls l)
    (hIn : Enrolled s.table name) (hTable : t.table = s.table) (hDyn : t.dynKeyring = s.dynKeyring)
    (hOwn : ∀ db n, n ≠ name → t.policy.own db n = s.policy.own db n)
    (hPending : ∀ m, c.policyPending cfg = some m → m = name) (hKeyring : c.keyringPending cfg = none)
    (hPurging : ∀ key code, d ≠ .purging key code) (hProvisioning : ∀ key code, d ≠ .provisioning key code)
    (hHolds : (∀ e ∈ t.calls, e.policyPending cfg ≠ some name) → HoldsTemplate cfg t.policy name) :
    Agrees cfg base t := by
  refine h.change name hc hCalls hLocks hPending (fun key code hEq => absurd hEq (hPurging key code)) hProvisioning
    (hTable ▸ h.rows) (hDyn ▸ h.keys) ⟨fun _ _ => by rw [hTable], fun _ _ => by rw [hDyn], hOwn⟩ ?_
  refine .of_enrolled (hTable ▸ hIn) ?_ ?_ hHolds
  · intro key code hName
    exact not_mem_set hCalls (fun hEq => hPurging key code hEq.symm) (h.no_purging hIn key code hName)
  · intro hNone key hName hStatic
    rw [hDyn]
    refine h.dyn_of_enrolled hIn (none_pending (Call.keyringPending cfg) hc hCalls ?_ hNone) key hName hStatic
    rw [hKeyring]
    exact fun hEq => by cases hEq

theorem grant (h : Agrees cfg base s) {key : Key} {code : Option Hash} (hc : s.calls[i]? = some (.granting key code))
    (hCalls : t.calls = s.calls.set i (afterGrants cfg key code))
    (hLocks : ∀ l ∈ (afterGrants cfg key code).locks cfg, l ∈ [Lock.mu] ∨ Free (Call.locks cfg) s.calls l)
    (hIn : Enrolled s.table (cfg.principalName key)) (hTable : t.table = s.table)
    (hDyn : t.dynKeyring = s.dynKeyring)
    (hPolicy : t.policy = applyGrants cfg.grants s.policy (cfg.principalName key)) : Agrees cfg base t := by
  have hAfter : ∀ e : Call, e.policyPending cfg ≠ none ∨ (∃ key code, e = .provisioning key code) →
      afterGrants cfg key code ≠ e := by
    rintro e he rfl
    unfold afterGrants at he
    split at he <;> rcases he with hPending | ⟨key', code', hEq⟩
    · exact hPending rfl
    · cases hEq
    · exact hPending rfl
    · cases hEq
  refine h.raise hc hCalls hLocks hIn hTable hDyn ?_ (fun _ hEq => (Option.some.inj hEq).symm) rfl
    (fun key' code' => hAfter _ (.inl (by simp [Call.policyPending]))) (fun key' code' => hAfter _ (.inr ⟨key', code', rfl⟩)) ?_
  · intro db n hNe
    rw [hPolicy]
    exact own_applyGrants_of_ne cfg.grants hNe.symm db
  · intro _ g hg level hLevel
    rw [hPolicy]
    exact applyGrants_covers cfg.grants g hg level hLevel

theorem provision (h : Agrees cfg base s) {key : Key} {code : Option Hash} {answer : Answer}
    (hc : s.calls[i]? = some (.provisioning key code)) (hCalls : t.calls = s.calls.set i (.returned answer))
    (hTable : t.table = s.table) (hDyn : t.dynKeyring = s.dynKeyring)
    (hPolicy : t.policy = grantProvision cfg s.policy (cfg.principalName key)) : Agrees cfg base t := by
  have hIn := (h.settled _).provisioning key code rfl (List.mem_of_getElem? hc)
  refine h.raise hc hCalls (fun _ hl => absurd hl List.not_mem_nil) hIn hTable hDyn ?_ (fun _ hEq => by cases hEq) rfl
    (fun _ _ hEq => by cases hEq) (fun _ _ hEq => by cases hEq) ?_
  · intro db n hNe
    rw [hPolicy]
    exact own_grantProvision_of_ne hNe.symm db
  · intro hNone
    have hOld := none_pending (Call.policyPending cfg) hc hCalls (fun hEq => by cases hEq) hNone
    rw [hPolicy]
    exact (((h.settled _).policy hOld).1 hIn).grantProvision

theorem erase (h : Agrees cfg base s) {c d : Call} {name : Name} (hc : s.calls[i]? = some c)
    (hCalls : t.calls = s.calls.set i d) (hLocks : ∀ l ∈ d.locks cfg, l ∈ c.locks cfg ∨ Free (Call.locks cfg) s.calls l)
    (hTable : t.table = deleteEnrolled s.table name) (hDyn : t.dynKeyring = s.dynKeyring)
    (hPolicy : t.policy = s.policy) (hGate : .gate name ∈ c.locks cfg) (hPendingC : c.policyPending cfg = none)
    (hPendingD : d.keyringPending cfg = some name) (hPurging : ∀ key code, d = .purging key code → cfg.principalName key = name)
    (hProvisioningC : ∀ key code, c ≠ .provisioning key code) (hProvisioning : ∀ key code, d ≠ .provisioning key code) :
    Agrees cfg base t := by
  have hMem := mem_set_self hc hCalls
  refine h.change name hc hCalls hLocks (fun m hEq => ?_) hPurging hProvisioning ?_ (hDyn ▸ h.keys)
    ⟨?_, fun _ _ => by rw [hDyn], fun _ _ _ => by rw [hPolicy]⟩ ?_
  · rw [hPendingC] at hEq
    cases hEq
  · intro r hr
    exact h.rows r (mem_deleteEnrolled.mp (hTable ▸ hr)).1
  · intro n hNe
    rw [hTable]
    exact enrolled_deleteEnrolled_of_ne hNe
  · refine .of_absent ?_ ?_ (fun hNone => absurd hPendingD (hNone _ hMem))
      (fun hNone => absurd (Call.policyPending_of_keyringPending hPendingD) (hNone _ hMem))
    · rw [hTable]
      exact not_enrolled_deleteEnrolled
    · rintro key code rfl
      refine not_mem_set hCalls (fun hEq => hProvisioning key code hEq.symm) ?_
      exact h.not_mem_of_lock hc hGate (List.mem_singleton_self _) (fun hEq => hProvisioningC key code hEq.symm)

theorem keys_remove (h : Agrees cfg base s) {name : Name} (hDyn : t.dynKeyring = removeKeyringName s.dynKeyring name)
    (key : Key) (n : Name) (hSome : t.dynKeyring key = some n) : n = cfg.principalName key ∧ cfg.static key = false := by
  rw [hDyn, removeKeyringName_eq_some] at hSome
  exact h.keys key n hSome.1

theorem dyn_remove_of_ne (h : Agrees cfg base s) {name : Name}
    (hDyn : t.dynKeyring = removeKeyringName s.dynKeyring name) (key : Key) (hNe : cfg.principalName key ≠ name) :
    t.dynKeyring key = s.dynKeyring key := by
  rw [hDyn, removeKeyringName]
  cases hSome : s.dynKeyring key with
  | none => rfl
  | some n => exact if_pos (decide_eq_true ((h.keys key n hSome).1 ▸ hNe))

theorem lower (h : Agrees cfg base s) {c d : Call} {name : Name} (hc : s.calls[i]? = some c)
    (hCalls : t.calls = s.calls.set i d) (hLocks : ∀ l ∈ d.locks cfg, l ∈ c.locks cfg ∨ Free (Call.locks cfg) s.calls l)
    (hOut : ¬ Enrolled s.table name) (hTable : t.table = s.table)
    (hDyn : t.dynKeyring = removeKeyringName s.dynKeyring name ∨
      t.dynKeyring = s.dynKeyring ∧ c.keyringPending cfg = none)
    (hPolicy : t.policy = s.policy.revokePrincipal name ∨ t.policy = s.policy ∧ d.policyPending cfg = some name)
    (hPending : ∀ m, c.policyPending cfg = some m → m = name)
    (hPurging : ∀ key code, d ≠ .purging key code) (hProvisioning : ∀ key code, d ≠ .provisioning key code) :
    Agrees cfg base t := by
  have hMem := mem_set_self hc hCalls
  refine h.change name hc hCalls hLocks hPending (fun key code hEq => absurd hEq (hPurging key code)) hProvisioning
    (hTable ▸ h.rows) ?_ ⟨fun _ _ => by rw [hTable], ?_, ?_⟩ ?_
  · rcases hDyn with hRemoved | ⟨hSame, -⟩
    · exact h.keys_remove hRemoved
    · exact hSame ▸ h.keys
  · rcases hDyn with hRemoved | ⟨hSame, -⟩
    · exact h.dyn_remove_of_ne hRemoved
    · exact fun _ _ => by rw [hSame]
  · intro db n hNe
    rcases hPolicy with hRevoked | ⟨hSame, -⟩
    · rw [hRevoked]
      exact Policy.own_revokePrincipal_of_ne hNe
    · rw [hSame]
  · refine .of_absent (hTable ▸ hOut) ?_ ?_ ?_
    · intro key code hName
      exact not_mem_set hCalls (fun hEq => hProvisioning key code hEq.symm) (h.no_provisioning hOut key code hName)
    · intro hNone key hName hSome
      rcases hDyn with hRemoved | ⟨hSame, hKeyring⟩
      · rw [hRemoved, removeKeyringName_eq_some] at hSome
        exact hSome.2 rfl
      · rw [hSame] at hSome
        have hStatic := (h.keys key name hSome).2
        have hOld := none_pending (Call.keyringPending cfg) hc hCalls
          (by rw [hKeyring]; exact fun hEq => by cases hEq) hNone
        exact hOut (((h.settled name).keyring hOld key hName hStatic).mpr hSome)
    · intro hNone db
      rcases hPolicy with hRevoked | ⟨-, hPendingD⟩
      · rw [hRevoked]
        exact .inl Policy.own_revokePrincipal_self
      · exact absurd hPendingD (hNone _ hMem)

theorem start (h : Agrees cfg base s) {c : Call} (hLocks : c.locks cfg = []) (hPending : c.policyPending cfg = none)
    (hProvisioning : ∀ key code, c ≠ .provisioning key code) : Agrees cfg base (s.start c) := by
  have hOld : ∀ e ∈ s.calls, e ∈ (s.start c).calls := fun e he => List.mem_append_left _ he
  have hFrom : ∀ e ∈ (s.start c).calls, e ≠ c → e ∈ s.calls := by
    intro e he hNe
    exact (List.mem_append.mp he).resolve_right fun hNew => hNe (List.mem_singleton.mp hNew)
  refine ⟨h.rows, h.keys, h.exclusive.append hLocks, fun name => ⟨?_, ?_, ?_, ?_⟩⟩
  · exact fun hNone => (h.settled name).keyring fun e he => hNone e (hOld e he)
  · exact fun hNone => (h.settled name).policy fun e he => hNone e (hOld e he)
  · intro key code hName hMem
    refine (h.settled name).purging key code hName (hFrom _ hMem ?_)
    rintro rfl
    cases hPending
  · intro key code hName hMem
    exact (h.settled name).provisioning key code hName (hFrom _ hMem fun hEq => hProvisioning key code hEq.symm)

theorem moves (hInj : Function.Injective cfg.principalName) (h : Agrees cfg base s) {c : Call}
    (hc : s.calls[i]? = some c) (hFits : Fits cfg s (.step i ok)) (hMoves : Moves cfg s t i c) : Agrees cfg base t := by
  rw [Fits, hc] at hFits
  obtain ⟨d, hCalls, hEffect, hLocks⟩ := hMoves
  cases hEffect with
  | quiet hTable hDyn hPolicy hPendingC hPendingD hProvisioning =>
    exact h.quiet hc hCalls hLocks hTable hDyn hPolicy hPendingC hPendingD hProvisioning
  | put hTable hDyn hPolicy => exact h.put hc hCalls hTable hDyn hPolicy
  | add hTable hDyn hPolicy => exact h.add hInj hc hCalls hFits.2 hTable hDyn hPolicy
  | grant hTable hDyn hPolicy => exact h.grant hc hCalls hLocks hFits.2 hTable hDyn hPolicy
  | provision hTable hDyn hPolicy => exact h.provision hc hCalls hTable hDyn hPolicy
  | delete hTable hDyn hPolicy =>
    exact h.erase hc hCalls hLocks hTable hDyn hPolicy (List.mem_singleton_self _) rfl rfl (fun _ _ hEq => by cases hEq)
      (fun _ _ hEq => by cases hEq) (fun _ _ hEq => by cases hEq)
  | @rollback key code hTable hDyn hPolicy =>
    refine h.erase hc hCalls hLocks hTable hDyn hPolicy List.mem_cons_self rfl rfl ?_ (fun _ _ hEq => by cases hEq)
      (fun _ _ hEq => by cases hEq)
    rintro key' code' hEq
    cases hEq
    rfl
  | remove hTable hDyn hPolicy =>
    exact h.lower hc hCalls hLocks hFits.2 hTable (.inl hDyn) (.inr ⟨hPolicy, rfl⟩)
      (fun _ hEq => (Option.some.inj hEq).symm) (fun _ _ hEq => by cases hEq) (fun _ _ hEq => by cases hEq)
  | revoke hTable hDyn hPolicy =>
    exact h.lower hc hCalls hLocks hFits.2 hTable (.inr ⟨hDyn, rfl⟩) (.inl hPolicy)
      (fun _ hEq => (Option.some.inj hEq).symm) (fun _ _ hEq => by cases hEq) (fun _ _ hEq => by cases hEq)
  | @purge key code hTable hDyn hPolicy =>
    have hOut := (h.settled _).purging key code rfl (List.mem_of_getElem? hc)
    refine h.lower hc hCalls hLocks hOut hTable (.inl hDyn) (.inl hPolicy) (fun _ hEq => (Option.some.inj hEq).symm) ?_ ?_
    · intro key' code' hEq
      cases code <;> cases hEq
    · intro key' code' hEq
      cases code <;> cases hEq

end Agrees

theorem step_agrees (hInj : Function.Injective cfg.principalName) (h : Agrees cfg base s) {a : Action}
    (hFits : Fits cfg s a) (hStep : step cfg s a = some t) : Agrees cfg base t := by
  cases step_acts hStep with
  | enroll | delete | mintCode => exact h.start rfl rfl (fun _ _ hEq => by cases hEq)
  | tick =>
    exact ⟨h.rows, h.keys, h.exclusive, fun name =>
      ⟨(h.settled name).keyring, (h.settled name).policy, (h.settled name).purging, (h.settled name).provisioning⟩⟩
  | step hc hTakes =>
    refine h.moves hInj hc hFits (hTakes.moves h.rows ?_)
    rintro ⟨key, code, rfl⟩
    rw [Fits, hc] at hFits
    exact hFits

/-! ## Loading the table -/

theorem load_keys (keys : List Key) (dyn : Key → Option Name) (key : Key) (hStatic : cfg.static key = false) :
    keys.foldl (fun dyn key => addKeyring cfg dyn key (cfg.principalName key)) dyn key =
      if key ∈ keys then some (cfg.principalName key) else dyn key := by
  induction keys generalizing dyn with
  | nil => simp
  | cons first rest ih =>
    rw [List.foldl_cons, ih]
    rcases Decidable.em (key = first) with rfl | hNe
    · simp [addKeyring, hStatic]
    · have hSame : addKeyring cfg dyn first (cfg.principalName first) key = dyn key := by
        unfold addKeyring
        split
        · rfl
        · exact Function.update_of_ne hNe _ _
      simp [hNe, hSame]

theorem load_static (keys : List Key) (dyn : Key → Option Name) (key : Key) (hStatic : cfg.static key = true) :
    keys.foldl (fun dyn key => addKeyring cfg dyn key (cfg.principalName key)) dyn key = dyn key := by
  induction keys generalizing dyn with
  | nil => rfl
  | cons first rest ih =>
    rw [List.foldl_cons, ih, addKeyring]
    split
    · rfl
    · rename_i hNot
      exact Function.update_of_ne (fun hEq : key = first => hNot (hEq ▸ hStatic)) _ _

theorem load_own (keys : List Key) (p : Policy) (name : Name) (hNot : ∀ key ∈ keys, cfg.principalName key ≠ name)
    (db : DbName) :
    (keys.foldl (fun p key => applyGrants cfg.grants p (cfg.principalName key)) p).own db name = p.own db name := by
  induction keys generalizing p with
  | nil => rfl
  | cons first rest ih =>
    rw [List.foldl_cons, ih _ fun key hKey => hNot key (List.mem_cons_of_mem _ hKey)]
    exact own_applyGrants_of_ne cfg.grants (hNot first List.mem_cons_self) db

theorem load_covers (keys : List Key) {p : Policy} {name : Name} {db : DbName} {level : Level}
    (h : p.Covers name db level) :
    (keys.foldl (fun p key => applyGrants cfg.grants p (cfg.principalName key)) p).Covers name db level := by
  induction keys generalizing p with
  | nil => exact h
  | cons first rest ih => exact ih (covers_applyGrants_of cfg.grants h)

theorem load_template (keys : List Key) (p : Policy) {key : Key} (hKey : key ∈ keys) :
    HoldsTemplate cfg (keys.foldl (fun p key => applyGrants cfg.grants p (cfg.principalName key)) p)
      (cfg.principalName key) := by
  intro g hg level hLevel
  induction keys generalizing p with
  | nil => cases hKey
  | cons first rest ih =>
    rcases List.mem_cons.mp hKey with rfl | hRest
    · exact load_covers rest (applyGrants_covers cfg.grants g hg level hLevel)
    · exact ih _ hRest

theorem loadExisting_agrees (hInj : Function.Injective cfg.principalName) (keys : List Key) (codes : List Code)
    (now : Int) : Agrees cfg base (loadExisting cfg base keys codes now) := by
  have hEnrolled : ∀ name, Enrolled (loadExisting cfg base keys codes now).table name ↔
      ∃ key ∈ keys, cfg.principalName key = name := by
    intro name
    simp [loadExisting, Enrolled]
  have hDyn : ∀ key, cfg.static key = false → (loadExisting cfg base keys codes now).dynKeyring key =
      if key ∈ keys then some (cfg.principalName key) else none :=
    fun key hStatic => load_keys keys _ key hStatic
  refine ⟨?_, ?_, exclusive_nil, fun name => ⟨?_, ?_, ?_, ?_⟩⟩
  · intro r hr
    obtain ⟨key, -, rfl⟩ := List.mem_map.mp hr
    rfl
  · intro key name hSome
    cases hStatic : cfg.static key with
    | true =>
      have hNone : (loadExisting cfg base keys codes now).dynKeyring key = none := load_static keys _ key hStatic
      cases hNone.symm.trans hSome
    | false =>
      rw [hDyn key hStatic] at hSome
      split at hSome
      · exact ⟨(Option.some.inj hSome).symm, rfl⟩
      · cases hSome
  · rintro - key rfl hStatic
    rw [hEnrolled, hDyn key hStatic]
    constructor
    · rintro ⟨key', hKey, hName⟩
      rw [hInj hName] at hKey
      rw [if_pos hKey]
    · intro hSome
      split at hSome
      · rename_i hKey
        exact ⟨key, hKey, rfl⟩
      · cases hSome
  · rintro -
    rw [hEnrolled]
    refine ⟨?_, fun hNot db => .inr (load_own keys base name (fun key hKey hName => hNot ⟨key, hKey, hName⟩) db)⟩
    rintro ⟨key, hKey, rfl⟩
    exact load_template keys base hKey
  · intro key code _ hMem
    cases hMem
  · intro key code _ hMem
    cases hMem

theorem Agrees.consistent (hInj : Function.Injective cfg.principalName) (h : Agrees cfg base s) (hQuiet : s.Quiescent) :
    Consistent cfg base s := by
  have hPolicy : ∀ name, ∀ c ∈ s.calls, c.policyPending cfg ≠ some name := by
    intro name c hc
    obtain ⟨answer, rfl⟩ := hQuiet c hc
    exact fun hEq => by cases hEq
  have hKeyring : ∀ name, ∀ c ∈ s.calls, c.keyringPending cfg ≠ some name :=
    fun name c hc hEq => hPolicy name c hc (Call.policyPending_of_keyringPending hEq)
  refine ⟨?_, fun name => ((h.settled name).policy (hPolicy name)).1, fun name => ((h.settled name).policy (hPolicy name)).2⟩
  intro key name hStatic
  have hIff := (h.settled _).keyring (hKeyring _) key rfl hStatic
  constructor
  · intro hRow
    have hName : name = cfg.principalName key := h.rows _ hRow
    rw [hName] at hRow ⊢
    exact hIff.mp ⟨_, hRow, rfl⟩
  · intro hSome
    have hOwn : name = cfg.principalName key := (h.keys key name hSome).1
    rw [hOwn] at hSome ⊢
    obtain ⟨r, hr, hName⟩ := hIff.mpr hSome
    have hKey : r.key = key := hInj ((h.rows r hr).symm.trans hName)
    rw [← hName, ← hKey]
    exact hr

/-- The table, the keyring and the policy agree whenever no call is in progress, in every
run in which the updates of enrollments and deletions fit the table. -/
theorem stores_consistent (cfg : Config) (hInj : Function.Injective cfg.principalName) (base : Policy)
    (keys : List Key) (codes : List Code) (now : Int) (actions : List Action)
    (hFits : Guarded (step cfg) (Fits cfg) (loadExisting cfg base keys codes now) actions) :
    Always (step cfg) (fun s => s.Quiescent → s.Consistent cfg base) (loadExisting cfg base keys codes now) actions := by
  have hAlways : Always (step cfg) (Agrees cfg base) (loadExisting cfg base keys codes now) actions :=
    always_of_guarded (fun s a t h hCond hStep => step_agrees hInj h hCond hStep)
      (loadExisting_agrees hInj keys codes now) hFits
  exact hAlways.mono fun s h hQuiet => h.consistent hInj hQuiet

def openConfig : Config := { bareConfig with grants := [("app", some .readOnly)] }

theorem openConfig_injective : Function.Injective openConfig.principalName := by
  intro a b h
  exact String.append_right_inj "u_" |>.mp h

theorem enrolled_then_deleted_consistent :
    Always (step openConfig) (fun s => s.Quiescent → s.Consistent openConfig (newPolicy false))
      (loadExisting openConfig (newPolicy false) ["a"] [] 0)
      [.enroll "b" none, .step 0 true, .step 0 true, .step 0 true, .step 0 true, .step 0 true, .step 0 true,
        .delete "u_b", .step 1 true, .step 1 true, .step 1 true, .step 1 true, .step 1 true, .step 1 true] :=
  stores_consistent openConfig openConfig_injective (newPolicy false) ["a"] [] 0 _ (by decide +kernel)

/-- A deletion runs between the insertion of a row and the admission of its key. -/
def overtakenEnrollment : List Action :=
  [.enroll "b" none, .step 0 true, .step 0 true, .step 0 true, .step 0 true, .delete "u_b", .step 1 true, .step 1 true,
    .step 1 true, .step 1 true, .step 1 true, .step 0 true, .step 0 true, .step 1 true]

theorem deleted_key_admitted :
    ¬ Always (step openConfig) (fun s => s.Quiescent → s.Consistent openConfig (newPolicy false))
      (loadExisting openConfig (newPolicy false) [] [] 0) overtakenEnrollment := by
  intro hAlways
  have hRun : (run (step openConfig) (loadExisting openConfig (newPolicy false) [] [] 0) overtakenEnrollment).map
      (fun s => (s.calls, s.table, s.dynKeyring "b")) =
      some ([.returned (.created "u_b"), .returned (.deleted true)], [], some "u_b") := by
    decide +kernel
  obtain ⟨s, hs, hFacts⟩ := Option.map_eq_some_iff.mp hRun
  simp only [Prod.mk.injEq] at hFacts
  obtain ⟨hCalls, hTable, hDyn⟩ := hFacts
  have hQuiet : s.Quiescent := by
    intro c hc
    rw [hCalls] at hc
    simp only [List.mem_cons, List.not_mem_nil, or_false] at hc
    rcases hc with rfl | rfl
    · exact ⟨_, rfl⟩
    · exact ⟨_, rfl⟩
  have hRow := ((hAlways.final hs hQuiet).keyring "b" "u_b" rfl).mpr hDyn
  rw [hTable] at hRow
  cases hRow

end Service

end QuicSql.Enroll
