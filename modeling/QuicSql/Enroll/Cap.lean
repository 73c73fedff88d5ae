import Mathlib.Algebra.Order.BigOperators.Group.List
import Mathlib.Algebra.Order.Ring.Int
import QuicSql.Enroll.Consistency

/-!
# The cap on enrolled principals

The counter shadows the table. It misses the rows of enrollments that have not counted them
yet, and still has those of deletions that have not discounted them. Both are read off the
calls, so that the counter plus what the calls owe is the number of rows.
-/

namespace QuicSql.Enroll

open Authz Lib

/-- What the counter lacks because of the call. -/
def Call.owed : Call → Int
  | .adding .. | .granting .. => 1
  | .removing _ | .revoking _ | .discounting _ => -1
  | _ => 0

/-- The call has passed the cap and not yet inserted its row. -/
def Call.vetted : Call → Bool
  | .consuming .. | .putting .. => true
  | _ => false

theorem Call.mu_of_owed {cfg : Config} {c : Call} (h : 0 < c.owed) : .mu ∈ c.locks cfg := by
  cases c <;> first | exact List.mem_singleton_self _ | simp [Call.owed] at h

theorem Call.mu_of_vetted {cfg : Config} {c : Call} (h : c.vetted = true) : .mu ∈ c.locks cfg := by
  cases c <;> first | exact List.mem_singleton_self _ | cases h

theorem Call.owed_of_vetted {c : Call} (h : c.vetted = true) : c.owed = 0 := by
  cases c <;> first | rfl | cases h

theorem owed_set {calls : List Call} {i : Nat} {c : Call} (d : Call) (hc : calls[i]? = some c) :
    ((calls.set i d).map Call.owed).sum + c.owed = (calls.map Call.owed).sum + d.owed := by
  obtain ⟨hi, rfl⟩ := List.getElem?_eq_some_iff.mp hc
  rw [List.map_set, List.sum_set', dif_pos (by simpa using hi), List.getElem_map]
  omega

section Table

variable {table : List Row} {name : Name}

theorem deleteEnrolled_length (hNames : (table.map Row.name).Nodup) (hIn : Enrolled table name) :
    (deleteEnrolled table name).length + 1 = table.length := by
  induction table with
  | nil =>
    obtain ⟨r, hr, -⟩ := hIn
    cases hr
  | cons first rest ih =>
    rw [List.map_cons, List.nodup_cons] at hNames
    obtain ⟨r, hr, hName⟩ := hIn
    rcases Decidable.em (first.name = name) with hFirst | hFirst
    · have hNone : ∀ r ∈ rest, r.name ≠ name :=
        fun r hr hEq => hNames.1 (List.mem_map.mpr ⟨r, hr, hEq.trans hFirst.symm⟩)
      have hRest : deleteEnrolled rest name = rest :=
        List.filter_eq_self.mpr fun r hr => decide_eq_true (hNone r hr)
      rw [deleteEnrolled, List.filter_cons_of_neg (by simpa using hFirst)]
      exact congrArg (fun rows => rows.length + 1) hRest
    · have hRest : Enrolled rest name := by
        rcases List.mem_cons.mp hr with rfl | hTail
        · exact absurd hName hFirst
        · exact ⟨r, hTail, hName⟩
      rw [deleteEnrolled, List.filter_cons_of_pos (by simpa using hFirst)]
      exact congrArg (· + 1) (ih hNames.2 hRest)

theorem deleteEnrolled_names (hNames : (table.map Row.name).Nodup) :
    ((deleteEnrolled table name).map Row.name).Nodup :=
  hNames.sublist (List.filter_sublist.map Row.name)

theorem conflicts_names {row : Row} (hNames : (table.map Row.name).Nodup) (h : conflicts table row = false) :
    ((table ++ [row]).map Row.name).Nodup := by
  rw [List.map_append, List.nodup_append]
  refine ⟨hNames, List.pairwise_singleton _ _, fun a ha b hb => ?_⟩
  obtain ⟨r, hr, rfl⟩ := List.mem_map.mp ha
  have hClear := List.any_eq_false.mp h r hr
  simp only [Bool.or_eq_true, decide_eq_true_eq, not_or] at hClear
  rw [List.mem_singleton.mp hb]
  exact hClear.1

end Table

namespace Service

variable {cfg : Config} {bound : Int} {s t u : Service} {ok : Bool} {c d : Call}

theorem Passes.owed (h : Passes cfg s ok c d) : d.owed = c.owed := by
  cases h with
  | @notPut key code => cases code <;> rfl
  | _ => rfl

theorem afterPurge_owed (key : Key) (code : Option Hash) : (afterPurge key code).owed = 0 := by
  cases code <;> rfl

theorem afterGrants_owed (cfg : Config) (key : Key) (code : Option Hash) : (afterGrants cfg key code).owed = 0 := by
  unfold afterGrants
  split <;> rfl

theorem Takes.balance (hNames : (s.table.map Row.name).Nodup) (h : Takes cfg s ok c d u) :
    u.count + d.owed - u.table.length = s.count + c.owed - s.table.length := by
  cases h with
  | passes hPass => rw [hPass.owed]
  | put =>
    simp only [Call.owed, List.length_append, List.length_singleton]
    omega
  | grant =>
    rw [afterGrants_owed]
    simp only [Call.owed]
    omega
  | purge => rw [afterPurge_owed]; rfl
  | rollback hIn | delete hIn =>
    have hLength := deleteEnrolled_length hNames hIn
    simp only [Call.owed]
    omega
  | discount =>
    simp only [Call.owed]
    omega
  | consume | add | unwind | provision | release | remove | revoke | sweep | store => rfl

theorem Takes.names (hNames : (s.table.map Row.name).Nodup) (h : Takes cfg s ok c d u) :
    (u.table.map Row.name).Nodup := by
  cases h with
  | put hClear => exact conflicts_names hNames hClear
  | rollback | delete => exact deleteEnrolled_names hNames
  | _ => exact hNames

theorem Takes.rows (h : Takes cfg s ok c d u) :
    u.table.length ≤ s.table.length ∨ c.vetted = true ∧ u.table.length = s.table.length + 1 := by
  cases h with
  | put => exact .inr ⟨rfl, List.length_append⟩
  | rollback | delete => exact .inl (List.length_filter_le _ _)
  | _ => exact .inl (Nat.le_refl _)

theorem Takes.count (h : Takes cfg s ok c d u) : u.count ≤ s.count ∨ .mu ∈ c.locks cfg ∧ c.vetted = false := by
  cases h with
  | grant => exact .inr ⟨List.mem_singleton_self _, rfl⟩
  | rollback | discount =>
    refine .inl ?_
    dsimp only
    omega
  | _ => exact .inl (Int.le_refl _)

theorem Takes.vetted (h : Takes cfg s ok c d u) (hVetted : d.vetted = true) :
    u.count = s.count ∧ (c.vetted = true ∨ s.HasRoom cfg) := by
  cases h with
  | passes hPass =>
    refine ⟨rfl, ?_⟩
    cases hPass with
    | coded hRoom | uncoded hRoom => exact .inr hRoom
    | @notPut key code => cases code <;> cases hVetted
    | _ => cases hVetted
  | consume => exact ⟨rfl, .inl rfl⟩
  | @grant key code =>
    unfold afterGrants at hVetted
    split at hVetted <;> cases hVetted
  | @purge key code => cases code <;> cases hVetted
  | _ => cases hVetted

theorem HasRoom.mono (h : s.HasRoom cfg) (hCount : u.count ≤ s.count) : u.HasRoom cfg :=
  fun hFull => h ⟨hFull.1, Int.le_trans hFull.2 hCount⟩

/-! ## The invariant -/

structure Counted (cfg : Config) (bound : Int) (s : Service) : Prop where
  exclusive : Exclusive (Call.locks cfg) s.calls
  names : (s.table.map Row.name).Nodup
  balance : s.count + (s.calls.map Call.owed).sum = s.table.length
  room : ∀ c ∈ s.calls, c.vetted = true → s.HasRoom cfg
  bounded : (s.table.length : Int) ≤ bound

namespace Counted

theorem rows_le_count (h : Counted cfg bound s) (hc : c ∈ s.calls) (hVetted : c.vetted = true) :
    s.table.length ≤ s.count := by
  have hOwed : (s.calls.map Call.owed).sum ≤ 0 := by
    have hZero : (s.calls.map fun _ => (0 : Int)).sum = 0 := List.sum_map_zero
    refine (List.sum_le_sum fun e he => Int.not_lt.mp fun hPos => ?_).trans_eq hZero
    obtain ⟨i, hi⟩ := List.getElem?_of_mem hc
    obtain ⟨j, hj⟩ := List.getElem?_of_mem he
    cases h.exclusive hi hj (Call.mu_of_vetted hVetted) (Call.mu_of_owed hPos)
    cases Option.some.inj (hi.symm.trans hj)
    rw [Call.owed_of_vetted hVetted] at hPos
    exact Int.lt_irrefl 0 hPos
  have hBalance := h.balance
  omega

theorem start (h : Counted cfg bound s) {c : Call} (hLocks : c.locks cfg = []) (hOwed : c.owed = 0)
    (hVetted : c.vetted = false) : Counted cfg bound (s.start c) where
  exclusive := h.exclusive.append hLocks
  names := h.names
  balance := by
    simp only [Service.start, List.map_append, List.map_cons, List.map_nil, List.sum_append, List.sum_singleton, hOwed]
    exact (Int.add_zero _).symm ▸ h.balance
  room := by
    intro e he hIn
    rcases List.mem_append.mp he with hOld | hNew
    · exact h.room e hOld hIn
    · rw [List.mem_singleton.mp hNew, hVetted] at hIn
      cases hIn
  bounded := h.bounded

theorem takes {i : Nat} (hMax : 0 < cfg.maxPrincipals) (hBound : cfg.maxPrincipals ≤ bound) (h : Counted cfg bound s)
    (hc : s.calls[i]? = some c) (hTakes : Takes cfg s ok c d u) :
    Counted cfg bound { u with calls := s.calls.set i d } where
  exclusive := h.exclusive.set hc hTakes.locks
  names := (hTakes.names h.names : (u.table.map Row.name).Nodup)
  balance := by
    have hSum := owed_set d hc
    have hStep := hTakes.balance h.names
    have hBalance := h.balance
    dsimp only
    omega
  room := by
    intro e he hVetted
    rcases Decidable.em (d.vetted = true) with hNew | hNew
    · obtain ⟨hCount, hFrom⟩ := hTakes.vetted hNew
      rcases hFrom with hOld | hRoom
      · exact (h.room c (List.mem_of_getElem? hc) hOld).mono (Int.le_of_eq hCount)
      · exact hRoom.mono (Int.le_of_eq hCount)
    · rcases List.mem_or_eq_of_mem_set he with hOld | rfl
      · -- another call past the cap holds the mutex, which the counting call would need
        rcases hTakes.count with hCount | ⟨hMu, hNot⟩
        · exact (h.room e hOld hVetted).mono hCount
        · obtain ⟨j, hj⟩ := List.getElem?_of_mem hOld
          cases h.exclusive hj hc (Call.mu_of_vetted hVetted) hMu
          cases Option.some.inj (hj.symm.trans hc)
          cases hNot.symm.trans hVetted
      · exact absurd hVetted hNew
  bounded := by
    rcases hTakes.rows with hFewer | ⟨hVetted, hGrown⟩
    · have hOld := h.bounded
      dsimp only
      omega
    · have hMem := List.mem_of_getElem? hc
      have hRows := h.rows_le_count hMem hVetted
      have hRoom : ¬ cfg.maxPrincipals ≤ s.count := fun hFull => h.room c hMem hVetted ⟨hMax, hFull⟩
      dsimp only
      omega

theorem quiescent (h : Counted cfg bound s) (hQuiet : s.Quiescent) :
    s.count = s.table.length := by
  have hOwed : (s.calls.map Call.owed).sum = 0 := by
    refine List.sum_eq_zero fun n hn => ?_
    obtain ⟨c, hc, rfl⟩ := List.mem_map.mp hn
    obtain ⟨answer, rfl⟩ := hQuiet c hc
    rfl
  have hBalance := h.balance
  omega

end Counted

theorem step_counted (hMax : 0 < cfg.maxPrincipals) (hBound : cfg.maxPrincipals ≤ bound) (h : Counted cfg bound s)
    {a : Action} (hStep : step cfg s a = some t) : Counted cfg bound t := by
  cases step_acts hStep with
  | enroll | delete | mintCode => exact h.start rfl rfl rfl
  | tick => exact ⟨h.exclusive, h.names, h.balance, h.room, h.bounded⟩
  | step hc hTakes => exact h.takes hMax hBound hc hTakes

/-- `LoadExisting` over any table whose keys all decode. -/
def loadTable (cfg : Config) (base : Policy) (table : List Row) (codes : List Code) (now : Int) : Service where
  table := table
  codes := codes
  dynKeyring := table.foldl (fun dyn r => addKeyring cfg dyn r.key r.name) (fun _ => none)
  policy := table.foldl (fun p r => applyGrants cfg.grants p r.name) base
  count := table.length
  clock := now
  calls := []

theorem loadExisting_eq_loadTable (cfg : Config) (base : Policy) (keys : List Key) (codes : List Code) (now : Int) :
    loadExisting cfg base keys codes now =
      loadTable cfg base (keys.map fun key => ⟨cfg.principalName key, key⟩) codes now := by
  simp [loadExisting, loadTable, List.foldl_map]

theorem loadTable_counted (base : Policy) {table : List Row} (hNames : (table.map Row.name).Nodup)
    (codes : List Code) (now : Int) (hBound : (table.length : Int) ≤ bound) :
    Counted cfg bound (loadTable cfg base table codes now) where
  exclusive := exclusive_nil
  names := hNames
  balance := Int.add_zero _
  room := fun _ hc => absurd hc List.not_mem_nil
  bounded := hBound

/-- The table never outgrows the cap, or what it was loaded with, and the counter is right
whenever no call is in progress. -/
theorem enrollment_cap_holds (cfg : Config) (hMax : 0 < cfg.maxPrincipals) (base : Policy) (table : List Row)
    (hNames : (table.map Row.name).Nodup) (codes : List Code) (now : Int) (actions : List Action) :
    Always (step cfg)
      (fun s => (s.table.length : Int) ≤ max cfg.maxPrincipals table.length ∧
        (s.Quiescent → s.count = s.table.length))
      (loadTable cfg base table codes now) actions := by
  have hAlways : Always (step cfg) (Counted cfg (max cfg.maxPrincipals table.length))
      (loadTable cfg base table codes now) actions :=
    always_of_invariant (fun s a t h hStep => step_counted hMax (Int.le_max_left _ _) h hStep)
      (loadTable_counted base hNames codes now (Int.le_max_right _ _)) actions
  exact hAlways.mono fun s h => ⟨h.bounded, h.quiescent⟩

/-- Two principals at most, each with a database of its own. -/
def cappedConfig : Config :=
  { bareConfig with maxPrincipals := 2, provision := true, provisionLevel := some .readWrite }

theorem one_place_left_capped :
    Always (step cappedConfig)
      (fun s => (s.table.length : Int) ≤ max cappedConfig.maxPrincipals 1 ∧ (s.Quiescent → s.count = s.table.length))
      (loadTable cappedConfig (newPolicy false) [⟨"u_a", "a"⟩] [] 0)
      [.enroll "b" none, .enroll "c" none, .step 0 true, .step 0 true, .step 0 true, .step 0 true, .step 0 true,
        .step 0 true, .step 1 true, .step 1 true, .step 1 true, .delete "u_b", .step 2 true, .step 2 true, .step 2 true,
        .step 2 true, .step 2 true, .step 2 true, .step 0 true, .step 0 true, .step 0 true, .step 0 true, .step 0 true] :=
  enrollment_cap_holds cappedConfig (by decide) (newPolicy false) [⟨"u_a", "a"⟩] (by decide) [] 0 _

end Service

end QuicSql.Enroll
