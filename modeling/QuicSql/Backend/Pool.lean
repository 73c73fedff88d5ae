import QuicSql.Backend.Conn

/-!
# What goes back to the connection pool

A native query or a stream borrows a connection, may change its mode, runs its
client's statements and hands it back. The three ways back differ in what they
do when a restoring step fails: only the teardown of an attach session discards
the connection.
-/

namespace QuicSql.Backend

open Lib

structure Clearing where
  listOk : Bool
  detachOk : String → Bool
  swapOk : Bool

/-- How a stream opens its pinned connection, with the outcomes of the steps of its
opening and its teardown. -/
inductive Mode where
  | writer
  | reader (enter leave : Outcome)
  | attach (enterOk : Bool) (clearing : Clearing)

inductive Job where
  | nativeWrite (stmts : List (Stmt × Bool))
  | nativeRead (enter : Outcome) (stmts : List (Stmt × Bool)) (leave : Outcome)
  | stream (mode : Mode) (idOk : Bool) (stmts : List (Stmt × Bool))

def Mode.enter (mode : Mode) (c : Conn) : Conn × Bool :=
  match mode with
  | .writer => (c, true)
  | .reader enter _ => c.setConnMode true enter
  | .attach enterOk _ => c.setConnAttach enterOk

/-- The mode exit in closeLocked's goroutine, after the ROLLBACK; no result when the
connection is poisoned. -/
def Mode.teardown (mode : Mode) (c : Conn) : Option Conn :=
  match mode with
  | .writer => some c
  | .reader _ leave => some (c.setConnMode false leave).1
  | .attach _ clearing =>
    match c.clearAttach clearing.listOk clearing.detachOk clearing.swapOk with
    | (c', true) => some c'
    | (_, false) => none

def Job.run (job : Job) (c : Conn) : Option Conn :=
  match job with
  | .nativeWrite stmts => some (c.execAll stmts)
  | .nativeRead enter stmts leave =>
    match c.setConnMode true enter with
    | (c', false) => some c'
    | (c', true) => some ((c'.execAll stmts).setConnMode false leave).1
  | .stream mode idOk stmts =>
    match mode.enter c with
    | (c', false) => some c'
    | (c', true) => if idOk then mode.teardown (c'.execAll stmts) else some c'

/-! ## When a borrow leaves the connection as it should be -/

def setting : Stmt × Bool → Option Bool
  | (.pragma name (some arg), true) => if isQueryOnly name then some (sqliteBool arg) else none
  | _ => none

def LeavesOff (stmts : List (Stmt × Bool)) : Prop := (stmts.filterMap setting).getLast? ≠ some true

def Unlocked (stmts : List (Stmt × Bool)) : Prop :=
  ((⟨.denyWrites, true, []⟩ : Conn).execAll stmts).queryOnly = false

/-- Read-only mode was not entered at all, or entered, reached and left without a
failure that matters. -/
def Restored (enter leave : Outcome) (reached : Bool) (stmts : List (Stmt × Bool)) : Prop :=
  enter.pragma = false ∨
    (enter.swap = true ∧ reached = true ∧ leave.swap = true ∧ (leave.pragma = true ∨ Unlocked stmts))

def Clearing.Fails (clearing : Clearing) (c : Conn) : Prop :=
  (c.clearAttach clearing.listOk clearing.detachOk clearing.swapOk).2 = false

/-- Exactly when a borrow hands back a connection as it got it, or discards it. -/
def Job.Restores : Job → Prop
  | .nativeWrite stmts => LeavesOff stmts
  | .nativeRead enter stmts leave => Restored enter leave true stmts
  | .stream .writer idOk stmts => idOk = false ∨ LeavesOff stmts
  | .stream (.reader enter leave) idOk stmts => Restored enter leave idOk stmts
  | .stream (.attach enterOk clearing) idOk stmts =>
    enterOk = false ∨ (idOk = true ∧
      (clearing.Fails ((⟨.permitAttach, false, []⟩ : Conn).execAll stmts) ∨ LeavesOff stmts))

theorem exec_queryOnly_writer {c : Conn} (hAuth : c.authorizer ≠ .denyWrites) (stmt : Stmt) (ok : Bool) :
    (c.exec stmt ok).1.queryOnly = (setting (stmt, ok)).getD c.queryOnly := by
  cases stmt with
  | attach file name | detach name | other asks =>
    exact exec_queryOnly_of_not_pragma (fun _ _ => Stmt.noConfusion)
  | pragma name arg =>
    unfold Conn.exec
    rw [admits_pragma hAuth]
    cases arg with
    | none => cases ok <;> rfl
    | some arg =>
      cases ok with
      | false => rfl
      | true => cases hName : isQueryOnly name <;> simp [Conn.apply, setting, hName]

theorem exec_attached {c : Conn} (hAuth : c.authorizer ≠ .permitAttach) (stmt : Stmt) (ok : Bool) :
    (c.exec stmt ok).1.attached = c.attached := by
  have hDenied : ∀ op arg1 arg2, op = .attach ∨ op = .detach →
      c.authorizer.check op arg1 arg2 = .deny := by
    rintro op arg1 arg2 (rfl | rfl)
    all_goals
      cases hEq : c.authorizer with
      | permitAttach => exact absurd hEq hAuth
      | denyAttachDetach => rfl
      | denyWrites => simp [Authorizer.check, denyWrites]
  unfold Conn.exec
  split
  · rename_i hOk
    cases stmt with
    | pragma name arg =>
      cases arg with
      | none => rfl
      | some arg =>
        dsimp only [Conn.apply]
        split <;> rfl
    | other asks => rfl
    | attach file name | detach name => simp [Conn.admits, Stmt.asks, hDenied] at hOk
  · rfl

theorem execAll_attached {c : Conn} (hAuth : c.authorizer ≠ .permitAttach) (stmts : List (Stmt × Bool)) :
    (c.execAll stmts).attached = c.attached := by
  induction stmts generalizing c with
  | nil => rfl
  | cons stmt rest ih =>
    obtain ⟨stmt, ok⟩ := stmt
    have hNext : (c.exec stmt ok).1.authorizer ≠ .permitAttach := by
      rw [exec_authorizer]
      exact hAuth
    exact (ih hNext).trans (exec_attached hAuth stmt ok)

theorem execAll_authorizer (c : Conn) (stmts : List (Stmt × Bool)) :
    (c.execAll stmts).authorizer = c.authorizer := by
  induction stmts generalizing c with
  | nil => rfl
  | cons stmt rest ih =>
    obtain ⟨stmt, ok⟩ := stmt
    exact (ih (c.exec stmt ok).1).trans (exec_authorizer c stmt ok)

theorem execAll_queryOnly {c : Conn} (hAuth : c.authorizer ≠ .denyWrites) (stmts : List (Stmt × Bool)) :
    (c.execAll stmts).queryOnly = (stmts.filterMap setting).getLast?.getD c.queryOnly := by
  induction stmts generalizing c with
  | nil => rfl
  | cons stmt rest ih =>
    obtain ⟨stmt, ok⟩ := stmt
    have hNext : (c.exec stmt ok).1.authorizer ≠ .denyWrites := by
      rw [exec_authorizer]
      exact hAuth
    change (Conn.execAll (c.exec stmt ok).1 rest).queryOnly = _
    rw [ih hNext, exec_queryOnly_writer hAuth, List.filterMap_cons]
    cases hSet : setting (stmt, ok) with
    | none => rfl
    | some on =>
      dsimp only [Option.getD_some]
      rw [List.getLast?_cons]
      cases (rest.filterMap setting).getLast? <;> rfl

theorem leavesOff_iff {c : Conn} (hAuth : c.authorizer ≠ .denyWrites) (hOff : c.queryOnly = false)
    (stmts : List (Stmt × Bool)) : LeavesOff stmts ↔ (c.execAll stmts).queryOnly = false := by
  rw [execAll_queryOnly hAuth, hOff]
  unfold LeavesOff
  cases (stmts.filterMap setting).getLast? with
  | none => simp
  | some on => cases on <;> simp

theorem execAll_fresh_iff (stmts : List (Stmt × Bool)) :
    Conn.fresh.execAll stmts = Conn.fresh ↔ LeavesOff stmts := by
  rw [leavesOff_iff (c := Conn.fresh) (by decide) rfl]
  constructor
  · intro hEq
    rw [hEq]
    rfl
  · intro hOff
    have hAuth := execAll_authorizer Conn.fresh stmts
    have hAttached := execAll_attached (c := Conn.fresh) (by decide) stmts
    revert hOff hAuth hAttached
    cases Conn.fresh.execAll stmts with
    | mk authorizer queryOnly attached =>
      rintro rfl rfl rfl
      rfl

/-! ### Read-only borrows -/

theorem setConnMode_enter (enter : Outcome) :
    Conn.fresh.setConnMode true enter =
      if enter.pragma then
        if enter.swap then (⟨.denyWrites, true, []⟩, true) else (⟨.denyAttachDetach, true, []⟩, false)
      else (Conn.fresh, false) := by
  obtain ⟨pragma, swap⟩ := enter
  cases pragma <;> cases swap <;> decide

theorem setConnMode_leave (on : Bool) (leave : Outcome) :
    ((⟨.denyWrites, on, []⟩ : Conn).setConnMode false leave).1 = Conn.fresh ↔
      leave.swap = true ∧ (leave.pragma = true ∨ on = false) := by
  obtain ⟨pragma, swap⟩ := leave
  cases on <;> cases pragma <;> cases swap <;> decide

theorem execAll_reader (stmts : List (Stmt × Bool)) :
    (⟨.denyWrites, true, []⟩ : Conn).execAll stmts =
      ⟨.denyWrites, ((⟨.denyWrites, true, []⟩ : Conn).execAll stmts).queryOnly, []⟩ := by
  have hAuth := execAll_authorizer ⟨.denyWrites, true, []⟩ stmts
  have hAttached := execAll_attached (c := ⟨.denyWrites, true, []⟩) (by decide) stmts
  revert hAuth hAttached
  cases Conn.execAll ⟨.denyWrites, true, []⟩ stmts with
  | mk authorizer queryOnly attached =>
    rintro rfl rfl
    rfl

theorem reader_leave_iff (stmts : List (Stmt × Bool)) (leave : Outcome) :
    (((⟨.denyWrites, true, []⟩ : Conn).execAll stmts).setConnMode false leave).1 = Conn.fresh ↔
      leave.swap = true ∧ (leave.pragma = true ∨ Unlocked stmts) := by
  rw [execAll_reader, setConnMode_leave]
  rfl

/-! ### Attach sessions -/

theorem exec_detach {c : Conn} (hAuth : c.authorizer = .permitAttach) (name : String) (ok : Bool) :
    c.exec (.detach name) ok =
      (if ok then { c with attached := c.attached.filter (fun s => s.val ≠ name) } else c, ok) := by
  have hAdmits : c.admits (.detach name) = true := by
    simp [Conn.admits, Stmt.asks, hAuth, Authorizer.check, permitAttach]
  unfold Conn.exec
  rw [hAdmits]
  cases ok <;> rfl

theorem detachNames_spec (detachOk : String → Bool) (names : List String) {c : Conn}
    (hAuth : c.authorizer = .permitAttach) :
    (c.detachNames detachOk names).1.queryOnly = c.queryOnly ∧
    ((c.detachNames detachOk names).2 = true →
      (c.detachNames detachOk names).1.attached = c.attached.filter (fun s => s.val ∉ names)) := by
  induction names generalizing c with
  | nil => exact ⟨rfl, fun _ => by simp [Conn.detachNames]⟩
  | cons name rest ih =>
    simp only [Conn.detachNames, exec_detach hAuth]
    cases hOk : detachOk name with
    | false =>
      rw [if_neg Bool.false_ne_true]
      exact ⟨(ih hAuth).1, fun h => by simp at h⟩
    | true =>
      simp only [if_true, Bool.true_and]
      obtain ⟨hQuery, hAttached⟩ :=
        ih (c := { c with attached := c.attached.filter (fun s => s.val ≠ name) }) hAuth
      refine ⟨hQuery, fun h => ?_⟩
      rw [hAttached h, List.filter_filter]
      apply List.filter_congr
      intro s _
      simp [List.mem_cons, not_or, Bool.and_comm]

theorem clearAttach_of_ok {c : Conn} (hAuth : c.authorizer = .permitAttach) (clearing : Clearing)
    (h : (c.clearAttach clearing.listOk clearing.detachOk clearing.swapOk).2 = true) :
    (c.clearAttach clearing.listOk clearing.detachOk clearing.swapOk).1 =
      ⟨.denyAttachDetach, c.queryOnly, []⟩ := by
  obtain ⟨listOk, detachOk, swapOk⟩ := clearing
  dsimp only at h ⊢
  cases swapOk with
  | false => simp [Conn.clearAttach, Conn.setAuthorizer] at h
  | true =>
    cases listOk with
    | false => simp [Conn.clearAttach, Conn.setAuthorizer, Conn.detachAll] at h
    | true =>
      have hNames : c.databaseList.filter (fun name => name ≠ "main" && name ≠ "temp") =
          c.attached.map Subtype.val := by
        rw [Conn.databaseList, List.filter_cons_of_neg (by decide), List.filter_cons_of_neg (by decide)]
        apply List.filter_eq_self.mpr
        intro name hName
        obtain ⟨s, _, rfl⟩ := List.mem_map.mp hName
        simp [s.property.1, s.property.2]
      obtain ⟨hQuery, hAttached⟩ := detachNames_spec detachOk (c.attached.map Subtype.val) hAuth
      simp only [Conn.clearAttach, Conn.setAuthorizer, Conn.detachAll, if_true, hNames] at h ⊢
      rw [hQuery, hAttached h]
      congr 1
      apply List.filter_eq_nil_iff.mpr
      intro s hs
      rw [decide_eq_true_eq, not_not]
      exact List.mem_map_of_mem hs

/-! ## One borrow -/

def Clean : Option Conn → Prop
  | some c => c = Conn.fresh
  | none => True

theorem attach_teardown_iff (clearing : Clearing) (stmts : List (Stmt × Bool)) :
    Clean ((Mode.attach true clearing).teardown ((⟨.permitAttach, false, []⟩ : Conn).execAll stmts)) ↔
      clearing.Fails ((⟨.permitAttach, false, []⟩ : Conn).execAll stmts) ∨ LeavesOff stmts := by
  have hAuth := execAll_authorizer ⟨.permitAttach, false, []⟩ stmts
  rw [leavesOff_iff (c := ⟨.permitAttach, false, []⟩) (by decide) rfl]
  generalize Conn.execAll ⟨.permitAttach, false, []⟩ stmts = c at hAuth ⊢
  have hOk := clearAttach_of_ok hAuth clearing
  unfold Clearing.Fails Mode.teardown
  dsimp only
  revert hOk
  rcases c.clearAttach clearing.listOk clearing.detachOk clearing.swapOk with ⟨c', ok⟩
  intro hOk
  cases ok with
  | false => simp [Clean]
  | true =>
    obtain rfl : c' = _ := hOk rfl
    simp [Clean, Conn.fresh]

theorem clean_run_iff (job : Job) : Clean (job.run Conn.fresh) ↔ job.Restores := by
  cases job with
  | nativeWrite stmts => exact execAll_fresh_iff stmts
  | nativeRead enter stmts leave =>
    simp only [Job.run, Job.Restores, Restored, setConnMode_enter]
    cases enter.pragma with
    | false => simp [Clean]
    | true =>
      cases enter.swap with
      | false => simp [Clean, Conn.fresh]
      | true => simpa [Clean] using reader_leave_iff stmts leave
  | stream mode idOk stmts =>
    cases mode with
    | writer =>
      simp only [Job.run, Mode.enter, Mode.teardown, Job.Restores]
      cases idOk with
      | false => simp [Clean]
      | true => simpa [Clean] using execAll_fresh_iff stmts
    | reader enter leave =>
      simp only [Job.run, Mode.enter, Mode.teardown, Job.Restores, Restored, setConnMode_enter]
      cases enter.pragma with
      | false => simp [Clean]
      | true =>
        cases enter.swap with
        | false => simp [Clean, Conn.fresh]
        | true =>
          cases idOk with
          | false => simp [Clean, Conn.fresh]
          | true => simpa [Clean] using reader_leave_iff stmts leave
    | attach enterOk clearing =>
      simp only [Job.run, Mode.enter, Job.Restores, Conn.setConnAttach, Conn.setAuthorizer]
      cases enterOk with
      | false => simp [Clean]
      | true =>
        cases idOk with
        | false => simp [Clean, Conn.fresh]
        | true =>
          simp only [Bool.true_eq_false, true_and, false_or, if_true]
          exact attach_teardown_iff clearing stmts

/-! ## The pool -/

/-- Idle connections, the borrows in progress with the connection each was given, and
every connection ever handed back. -/
structure Pool where
  idle : List Conn
  busy : List (Conn × Job)
  returned : List Conn

inductive Action where
  | borrow (slot : Option Nat) (job : Job)
  | giveBack (i : Nat)

/-- A borrow gets an idle connection or a new one; borrows end in any order. -/
def step (pool : Pool) : Action → Option Pool
  | .borrow none job => some { pool with busy := pool.busy ++ [(Conn.fresh, job)] }
  | .borrow (some k) job =>
    match pool.idle[k]? with
    | none => none
    | some c => some { pool with idle := pool.idle.eraseIdx k, busy := pool.busy ++ [(c, job)] }
  | .giveBack i =>
    match pool.busy[i]? with
    | none => none
    | some (c, job) =>
      let back := (job.run c).toList
      some ⟨pool.idle ++ back, pool.busy.eraseIdx i, pool.returned ++ back⟩

def emptyPool : Pool := ⟨[], [], []⟩

def Hygienic (pool : Pool) : Prop := ∀ c ∈ pool.returned, c = Conn.fresh

def RestoresAtEnd (pool : Pool) : Action → Prop
  | .giveBack i => ∀ c job, pool.busy[i]? = some (c, job) → job.Restores
  | .borrow _ _ => True

structure Sourced (pool : Pool) : Prop where
  idle : ∀ c ∈ pool.idle, c ∈ pool.returned
  busy : ∀ c job, (c, job) ∈ pool.busy → c = Conn.fresh ∨ c ∈ pool.returned

theorem Sourced.step {pool pool' : Pool} {act : Action} (hSrc : Sourced pool)
    (h : step pool act = some pool') : Sourced pool' := by
  cases act with
  | borrow slot job =>
    cases slot with
    | none =>
      cases h
      refine ⟨hSrc.idle, fun c job' hMem => ?_⟩
      rcases List.mem_append.mp hMem with hMem | hMem
      · exact hSrc.busy c job' hMem
      · obtain ⟨rfl, rfl⟩ := Prod.mk.inj (List.mem_singleton.mp hMem)
        exact .inl rfl
    | some k =>
      simp only [Backend.step] at h
      split at h
      · cases h
      · rename_i c hc
        cases h
        refine ⟨fun c' hMem => hSrc.idle c' (List.mem_of_mem_eraseIdx hMem), fun c' job' hMem => ?_⟩
        rcases List.mem_append.mp hMem with hMem | hMem
        · exact hSrc.busy c' job' hMem
        · obtain ⟨rfl, rfl⟩ := Prod.mk.inj (List.mem_singleton.mp hMem)
          exact .inr (hSrc.idle c' (List.mem_of_getElem? hc))
  | giveBack i =>
    simp only [Backend.step] at h
    split at h
    · cases h
    · cases h
      refine ⟨fun c hMem => ?_, fun c job hMem => ?_⟩
      · rcases List.mem_append.mp hMem with hMem | hMem
        · exact List.mem_append_left _ (hSrc.idle c hMem)
        · exact List.mem_append_right _ hMem
      · rcases hSrc.busy c job (List.mem_of_mem_eraseIdx hMem) with hFresh | hRet
        · exact .inl hFresh
        · exact .inr (List.mem_append_left _ hRet)

theorem hygienic_giveBack_iff {pool : Pool} {i : Nat} {c : Conn} {job : Job} (hSrc : Sourced pool)
    (hHyg : Hygienic pool) (hc : pool.busy[i]? = some (c, job)) :
    (∀ c' ∈ pool.returned ++ (job.run c).toList, c' = Conn.fresh) ↔ job.Restores := by
  obtain rfl : c = Conn.fresh := by
    rcases hSrc.busy c job (List.mem_of_getElem? hc) with hFresh | hRet
    · exact hFresh
    · exact hHyg c hRet
  rw [← clean_run_iff]
  constructor
  · intro hAll
    cases hRun : job.run Conn.fresh with
    | none => trivial
    | some c' => exact hAll c' (List.mem_append_right _ (by simp [hRun]))
  · intro hClean c' hMem
    rcases List.mem_append.mp hMem with hMem | hMem
    · exact hHyg c' hMem
    · have hRun : job.run Conn.fresh = some c' := by simpa using hMem
      rw [hRun] at hClean
      exact hClean

/-- Along every run, all connections handed back are clean exactly when every borrow
that ends restores what it changed. -/
theorem pool_hygienic_iff (actions : List Action) :
    Always step Hygienic emptyPool actions ↔ Guarded step RestoresAtEnd emptyPool actions := by
  have hInit : Sourced emptyPool := ⟨by simp [emptyPool], by simp [emptyPool]⟩
  constructor
  · apply guarded_of_always (fun _ _ _ hSrc h => Sourced.step hSrc h) ?_ hInit
    intro pool act pool' hSrc hHyg h hHyg'
    cases act with
    | borrow slot job => trivial
    | giveBack i =>
      intro c job hc
      simp only [step, hc, Option.some.injEq] at h
      subst h
      exact (hygienic_giveBack_iff hSrc hHyg hc).mp hHyg'
  · intro hGuard
    have hAlways := always_of_guarded (I := fun pool => Sourced pool ∧ Hygienic pool) ?_
      ⟨hInit, by simp [Hygienic, emptyPool]⟩ hGuard
    · exact hAlways.mono (fun _ h => h.2)
    · rintro pool act pool' ⟨hSrc, hHyg⟩ hRestores h
      refine ⟨hSrc.step h, ?_⟩
      cases act with
      | borrow slot job =>
        cases slot with
        | none =>
          cases h
          exact hHyg
        | some k =>
          simp only [step] at h
          split at h <;> cases h
          exact hHyg
      | giveBack i =>
        simp only [step] at h
        split at h
        · cases h
        · rename_i c job hc
          cases h
          exact (hygienic_giveBack_iff hSrc hHyg hc).mpr (hRestores c job hc)

theorem writer_leaves_query_only_on :
    ¬ Always step Hygienic emptyPool
      [.borrow none (.nativeWrite [(.pragma "query_only" (some "ON"), true)]), .giveBack 0] := by
  intro hAlways
  have hBack : (Job.nativeWrite [(.pragma "query_only" (some "ON"), true)]).run Conn.fresh =
      some ⟨.denyAttachDetach, true, []⟩ := by decide
  have hEnd := ((hAlways.2 _ rfl).2 _ rfl) ⟨.denyAttachDetach, true, []⟩
  rw [hBack] at hEnd
  exact absurd (hEnd (by simp [emptyPool])) (by decide)

end QuicSql.Backend
