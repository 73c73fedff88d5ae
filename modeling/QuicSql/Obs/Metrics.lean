import QuicSql.Lib.Pool
import QuicSql.Lib.Transition
import Mathlib.Logic.Function.Basic

/-!
# The series of a database

An admitted request is counted when it starts and timed when it ends, if its database is known
to the registry at the start. Dropping a database takes it out of the registry first and
forgets its series afterwards; a create that fails takes it out and forgets nothing. Requests
go on beside both.
-/

namespace QuicSql.Obs

open Lib

abbrev DbName := String

/-- The series that are kept for a database. Durations are in nanoseconds. -/
structure Metrics where
  requests : DbName → Option Nat
  latSum : DbName → Option Nat
  latCount : DbName → Option Nat

def Metrics.new : Metrics := ⟨fun _ => none, fun _ => none, fun _ => none⟩

/-- `m[db] += n` -/
def bump (m : DbName → Option Nat) (db : DbName) (n : Nat) : DbName → Option Nat :=
  Function.update m db (some ((m db).getD 0 + n))

def Metrics.incRequests (m : Metrics) (db : DbName) : Metrics := { m with requests := bump m.requests db 1 }

def Metrics.observeLatency (m : Metrics) (db : DbName) (d : Nat) : Metrics :=
  { m with latSum := bump m.latSum db d, latCount := bump m.latCount db 1 }

def Metrics.forget (m : Metrics) (db : DbName) : Metrics where
  requests := Function.update m.requests db none
  latSum := Function.update m.latSum db none
  latCount := Function.update m.latCount db none

/-- A request that the limiter let pass: after the look at the registry, between the counting and
the end of the handler, and afterwards. -/
inductive Req where
  | checked (db : DbName) (metered : Bool)
  | running (db : DbName) (metered : Bool) (start : Nat)
  | finished
deriving DecidableEq

inductive Drop where
  | removed (db : DbName)
  | done
deriving DecidableEq

/-- `ever` has the names that the registry has known, for the statements only. -/
structure State where
  backends : DbName → Bool
  metrics : Metrics
  reqs : List Req
  drops : List Drop
  now : Nat
  ever : DbName → Bool

inductive Action where
  | add (db : DbName)
  | rollback (db : DbName)
  | remove (db : DbName)
  | forget (i : Nat)
  | arrive (db : DbName)
  | count (i : Nat)
  | finish (i : Nat)
  | tick (elapsed : Nat)

def init : State where
  backends := fun _ => false
  metrics := .new
  reqs := []
  drops := []
  now := 0
  ever := fun _ => false

def State.without (s : State) (db : DbName) : State := { s with backends := Function.update s.backends db false }

def State.count (s : State) (i : Nat) : Option State :=
  match s.reqs[i]? with
  | some (.checked db metered) =>
    some { s with
      metrics := if metered then s.metrics.incRequests db else s.metrics
      reqs := s.reqs.set i (.running db metered s.now) }
  | _ => none

def State.finish (s : State) (i : Nat) : Option State :=
  match s.reqs[i]? with
  | some (.running db metered start) =>
    some { s with
      metrics := if metered then s.metrics.observeLatency db (s.now - start) else s.metrics
      reqs := s.reqs.set i .finished }
  | _ => none

def State.forget (s : State) (i : Nat) : Option State :=
  match s.drops[i]? with
  | some (.removed db) => some { s with metrics := s.metrics.forget db, drops := s.drops.set i .done }
  | _ => none

def step (s : State) : Action → Option State
  | .add db =>
    if s.backends db then none
    else some { s with backends := Function.update s.backends db true, ever := Function.update s.ever db true }
  | .rollback db => if s.backends db then some (s.without db) else none
  | .remove db => if s.backends db then some { s.without db with drops := s.drops ++ [.removed db] } else none
  | .forget i => s.forget i
  | .arrive db => some { s with reqs := s.reqs ++ [.checked db (s.backends db)] }
  | .count i => s.count i
  | .finish i => s.finish i
  | .tick elapsed => some { s with now := s.now + elapsed }

/-! ## What a scrape can rely on -/

/-- The request writes to the series of the database, now or later. -/
def underWay (db : DbName) : Req → Bool
  | .checked db' metered | .running db' metered _ => metered && decide (db' = db)
  | .finished => false

def counted (db : DbName) : Req → Bool
  | .running db' metered _ => metered && decide (db' = db)
  | .checked _ _ | .finished => false

def Shown (m : Metrics) (db : DbName) : Prop := m.requests db ≠ none ∨ m.latCount db ≠ none

instance (m : Metrics) (db : DbName) : Decidable (Shown m db) := inferInstanceAs (Decidable (_ ∨ _))

/-- The series of a database are forgotten when none of its requests is under way, and a create
is rolled back before anybody has asked for the database. -/
def Quiet (s : State) : Action → Prop
  | .forget i => ∀ db, s.drops[i]? = some (.removed db) → s.reqs.countP (underWay db) = 0
  | .rollback db => s.reqs.countP (underWay db) = 0 ∧ ¬ Shown s.metrics db
  | _ => True

/-- In every scrape: the requests of a database are those timed and those still running; only a
database that the registry knows, or that is just being dropped, has series. -/
structure Exact (s : State) : Prop where
  served : ∀ db, (s.metrics.requests db).getD 0 = (s.metrics.latCount db).getD 0 + s.reqs.countP (counted db)
  current : ∀ db, Shown s.metrics db ∨ 0 < s.reqs.countP (underWay db) →
    s.backends db = true ∨ Drop.removed db ∈ s.drops

/-- Whatever happens, names that were never known get no series, and the two parts of the
summary go together. -/
structure Known (s : State) : Prop where
  backends : ∀ db, s.backends db = true → s.ever db = true
  reqs : ∀ r ∈ s.reqs, ∀ db, underWay db r = true → s.ever db = true
  shown : ∀ db, Shown s.metrics db → s.ever db = true
  summary : ∀ db, s.metrics.latSum db = none ↔ s.metrics.latCount db = none

theorem bump_self (m : DbName → Option Nat) (db : DbName) (n : Nat) : bump m db n db = some ((m db).getD 0 + n) :=
  Function.update_self ..

theorem bump_of_ne (m : DbName → Option Nat) {db db' : DbName} (h : db' ≠ db) (n : Nat) : bump m db n db' = m db' :=
  Function.update_of_ne h _ _

theorem of_bump_ne_none {m : DbName → Option Nat} {db db' : DbName} {n : Nat} (h : bump m db n db' ≠ none) :
    db' = db ∨ m db' ≠ none := by
  rcases eq_or_ne db' db with hEq | hNe
  · exact .inl hEq
  · rw [bump_of_ne _ hNe] at h
    exact .inr h

variable {m : Metrics} {db db' : DbName} {metered : Bool}

theorem shown_count (h : Shown (if metered then m.incRequests db else m) db') :
    underWay db' (.checked db metered) = true ∨ Shown m db' := by
  cases metered with
  | false => exact .inr h
  | true =>
    rcases h with h | h
    · exact (of_bump_ne_none h).imp (fun hEq => by simp [underWay, hEq]) .inl
    · exact .inr (.inr h)

theorem shown_finish {start d : Nat} (h : Shown (if metered then m.observeLatency db d else m) db') :
    underWay db' (.running db metered start) = true ∨ Shown m db' := by
  cases metered with
  | false => exact .inr h
  | true =>
    rcases h with h | h
    · exact .inr (.inl h)
    · exact (of_bump_ne_none h).imp (fun hEq => by simp [underWay, hEq]) .inr

theorem forget_self (m : Metrics) (db : DbName) : (m.forget db).requests db = none ∧ (m.forget db).latCount db = none :=
  ⟨Function.update_self .., Function.update_self ..⟩

theorem forget_of_ne (m : Metrics) (h : db' ≠ db) : (m.forget db).requests db' = m.requests db' ∧
    (m.forget db).latSum db' = m.latSum db' ∧ (m.forget db).latCount db' = m.latCount db' :=
  ⟨Function.update_of_ne h _ _, Function.update_of_ne h _ _, Function.update_of_ne h _ _⟩

theorem shown_forget (h : Shown (m.forget db) db') : db' ≠ db ∧ Shown m db' := by
  have hNe : db' ≠ db := by
    rintro rfl
    obtain ⟨hRequests, hCount⟩ := forget_self m db'
    exact h.elim (fun h => h hRequests) fun h => h hCount
  obtain ⟨hRequests, _, hCount⟩ := forget_of_ne m hNe
  rw [Shown, hRequests, hCount] at h
  exact ⟨hNe, h⟩

/-! ## Names -/

theorem known_init : Known init where
  backends _ h := by cases h
  reqs _ h := by cases h
  shown _ h := h.elim (fun h => absurd rfl h) fun h => absurd rfl h
  summary _ := Iff.rfl

variable {s t : State}

theorem Known.step {act : Action} (h : Known s) (hStep : step s act = some t) : Known t := by
  cases act with
  | add db =>
    simp only [Obs.step] at hStep
    split at hStep
    · cases hStep
    · cases hStep
      have hEver : ∀ db', s.ever db' = true → Function.update s.ever db true db' = true := fun db' hOld => by
        rcases eq_or_ne db' db with rfl | hNe
        · exact Function.update_self ..
        · rw [Function.update_of_ne hNe, hOld]
      refine ⟨fun db' hBackend => ?_, fun r hr db' hUnder => hEver db' (h.reqs r hr db' hUnder),
        fun db' hShown => hEver db' (h.shown db' hShown), h.summary⟩
      rcases eq_or_ne db' db with rfl | hNe
      · exact Function.update_self ..
      · change Function.update s.backends db true db' = true at hBackend
        rw [Function.update_of_ne hNe] at hBackend
        exact hEver db' (h.backends db' hBackend)
  | rollback db | remove db =>
    simp only [Obs.step] at hStep
    split at hStep
    · cases hStep
      refine ⟨fun db' hBackend => h.backends db' ?_, h.reqs, h.shown, h.summary⟩
      change Function.update s.backends db false db' = true at hBackend
      rcases eq_or_ne db' db with rfl | hNe
      · rw [Function.update_self] at hBackend
        cases hBackend
      · rwa [Function.update_of_ne hNe] at hBackend
    · cases hStep
  | forget i =>
    simp only [Obs.step, State.forget] at hStep
    split at hStep
    · rename_i db hDrop
      cases hStep
      refine ⟨h.backends, h.reqs, fun db' hShown => h.shown db' (shown_forget hShown).2, fun db' => ?_⟩
      rcases eq_or_ne db' db with rfl | hNe
      · exact ⟨fun _ => (forget_self s.metrics db').2, fun _ => Function.update_self ..⟩
      · obtain ⟨_, hSum, hCount⟩ := forget_of_ne s.metrics hNe
        change (s.metrics.forget db).latSum db' = none ↔ (s.metrics.forget db).latCount db' = none
        rw [hSum, hCount]
        exact h.summary db'
    · cases hStep
  | arrive db =>
    cases hStep
    refine ⟨h.backends, fun r hr db' hUnder => ?_, h.shown, h.summary⟩
    rcases List.mem_append.mp hr with hr | hr
    · exact h.reqs r hr db' hUnder
    · cases List.mem_singleton.mp hr
      obtain ⟨hMetered, hEq⟩ := Bool.and_eq_true_iff.mp hUnder
      cases of_decide_eq_true hEq
      exact h.backends db hMetered
  | count i =>
    simp only [Obs.step, State.count] at hStep
    split at hStep
    · rename_i db metered hReq
      cases hStep
      have hOld := h.reqs _ (List.mem_of_getElem? hReq)
      refine ⟨h.backends, forall_mem_set h.reqs hOld, fun db' hShown => ?_, ?_⟩
      · exact (shown_count hShown).elim (hOld db') (h.shown db')
      · cases metered <;> exact h.summary
    · cases hStep
  | finish i =>
    simp only [Obs.step, State.finish] at hStep
    split at hStep
    · rename_i db metered start hReq
      cases hStep
      have hOld := h.reqs _ (List.mem_of_getElem? hReq)
      refine ⟨h.backends, forall_mem_set h.reqs fun _ hUnder => (by cases hUnder), fun db' hShown => ?_, fun db' => ?_⟩
      · exact (shown_finish hShown).elim (hOld db') (h.shown db')
      · cases metered with
        | false => exact h.summary db'
        | true =>
          change bump s.metrics.latSum db _ db' = none ↔ bump s.metrics.latCount db 1 db' = none
          rcases eq_or_ne db' db with rfl | hNe
          · rw [bump_self, bump_self]
            simp
          · rw [bump_of_ne _ hNe, bump_of_ne _ hNe]
            exact h.summary db'
    · cases hStep
  | tick elapsed =>
    cases hStep
    exact ⟨h.backends, h.reqs, h.shown, h.summary⟩

/-! ## Numbers -/

theorem exact_init : Exact init where
  served _ := rfl
  current _ h := by
    rcases h with (h | h) | h
    · exact absurd rfl h
    · exact absurd rfl h
    · cases h

theorem underWay_of_counted {r : Req} (h : counted db r = true) : underWay db r = true := by
  cases r with
  | running db' metered start => exact h
  | checked | finished => cases h

theorem toNat_counted_running (db db' : DbName) (start : Nat) :
    (counted db' (.running db true start)).toNat = if db = db' then 1 else 0 := by
  by_cases hEq : db = db' <;> simp [counted, hEq]

theorem getD_bump (m : DbName → Option Nat) (db db' : DbName) (n : Nat) :
    (bump m db n db').getD 0 = (m db').getD 0 + if db = db' then n else 0 := by
  rcases eq_or_ne db' db with rfl | hNe
  · rw [bump_self, if_pos rfl, Option.getD_some]
  · rw [bump_of_ne _ hNe, if_neg hNe.symm, Nat.add_zero]

/-- A request goes on to a stage at which it writes to the same series or to none, and what it has
written is what its stage tells. -/
theorem Exact.advance (h : Exact s) {i : Nat} {r r' : Req} (hr : s.reqs[i]? = some r)
    (hUnder : ∀ db, underWay db r' = true → underWay db r = true) {m : Metrics}
    (hShown : ∀ db, Shown m db → underWay db r = true ∨ Shown s.metrics db)
    (hNumbers : ∀ db, (m.requests db).getD 0 + (s.metrics.latCount db).getD 0 + (counted db r).toNat =
      (s.metrics.requests db).getD 0 + (m.latCount db).getD 0 + (counted db r').toNat) :
    Exact { s with metrics := m, reqs := s.reqs.set i r' } where
  served db := by
    have hSet := countP_set_add (p := counted db) (b := r') hr
    have hOld := h.served db
    have hNew := hNumbers db
    change (m.requests db).getD 0 = (m.latCount db).getD 0 + (s.reqs.set i r').countP (counted db)
    omega
  current db hNow := by
    refine h.current db ?_
    rcases hNow with hNow | hNow
    · rcases hShown db hNow with hOld | hOld
      · exact .inr (List.countP_pos_iff.mpr ⟨r, List.mem_of_getElem? hr, hOld⟩)
      · exact .inl hOld
    · exact .inr (Nat.lt_of_lt_of_le hNow (countP_set_le hr (hUnder db)))

theorem Exact.forget (h : Exact s) {i : Nat} (hQuiet : Quiet s (.forget i)) (hStep : s.forget i = some t) :
    Exact t := by
  unfold State.forget at hStep
  split at hStep
  · rename_i db hDrop
    cases hStep
    have hNone := hQuiet db hDrop
    refine ⟨fun db' => ?_, fun db' hNow => ?_⟩
    · rcases eq_or_ne db' db with rfl | hNe
      · -- Nothing is counted that is not under way.
        have hLe : s.reqs.countP (counted db') ≤ s.reqs.countP (underWay db') :=
          List.countP_mono_left fun _ _ => underWay_of_counted
        change ((s.metrics.forget db').requests db').getD 0 = ((s.metrics.forget db').latCount db').getD 0 + _
        rw [(forget_self s.metrics db').1, (forget_self s.metrics db').2]
        simp only [Option.getD_none]
        omega
      · obtain ⟨hRequests, _, hCount⟩ := forget_of_ne s.metrics hNe
        change ((s.metrics.forget db).requests db').getD 0 = ((s.metrics.forget db).latCount db').getD 0 + _
        rw [hRequests, hCount]
        exact h.served db'
    · have hNe : db' ≠ db := by
        rcases hNow with hShown | hUnder
        · exact (shown_forget hShown).1
        · rintro rfl
          exact absurd hNone (Nat.ne_of_gt hUnder)
      rcases h.current db' (hNow.imp_left fun hShown => (shown_forget hShown).2) with hBackend | hMem
      · exact .inl hBackend
      · exact .inr (mem_set_of_mem_ne hDrop hMem fun hEq => hNe (Drop.removed.inj hEq))
  · cases hStep

theorem Exact.count (h : Exact s) {i : Nat} (hStep : s.count i = some t) : Exact t := by
  unfold State.count at hStep
  split at hStep
  · rename_i db metered hReq
    cases hStep
    refine h.advance hReq ?_ (fun _ hShown => shown_count hShown) fun db' => ?_
    · exact fun _ hUnder => hUnder
    · cases metered with
      | false => simp [counted]
      | true =>
        rw [toNat_counted_running]
        simp only [if_true, Metrics.incRequests, getD_bump, counted, Bool.toNat_false]
        omega
  · cases hStep

theorem Exact.finish (h : Exact s) {i : Nat} (hStep : s.finish i = some t) : Exact t := by
  unfold State.finish at hStep
  split at hStep
  · rename_i db metered start hReq
    cases hStep
    refine h.advance hReq (fun _ hUnder => by cases hUnder) (fun _ hShown => shown_finish hShown) fun db' => ?_
    cases metered with
    | false => simp [counted]
    | true =>
      rw [toNat_counted_running]
      simp only [if_true, Metrics.observeLatency, getD_bump, counted, Bool.toNat_false]
      omega
  · cases hStep

theorem Exact.step {act : Action} (h : Exact s) (hQuiet : Quiet s act) (hStep : step s act = some t) :
    Exact t := by
  cases act with
  | add db =>
    simp only [Obs.step] at hStep
    split at hStep
    · cases hStep
    · cases hStep
      refine ⟨h.served, fun db' hNow => (h.current db' hNow).imp_left fun hBackend => ?_⟩
      rcases eq_or_ne db' db with rfl | hNe
      · exact Function.update_self ..
      · exact (Function.update_of_ne hNe _ _).trans hBackend
  | rollback db =>
    simp only [Obs.step] at hStep
    split at hStep
    · cases hStep
      refine ⟨h.served, fun db' hNow => (h.current db' hNow).imp_left fun hBackend => ?_⟩
      have hNe : db' ≠ db := by
        rintro rfl
        exact hNow.elim hQuiet.2 fun hUnder => absurd hQuiet.1 (Nat.ne_of_gt hUnder)
      exact (Function.update_of_ne hNe _ _).trans hBackend
    · cases hStep
  | remove db =>
    simp only [Obs.step] at hStep
    split at hStep
    · cases hStep
      refine ⟨h.served, fun db' hNow => ?_⟩
      rcases eq_or_ne db' db with rfl | hNe
      · exact .inr (List.mem_append_right _ (List.mem_singleton.mpr rfl))
      · exact (h.current db' hNow).imp (Function.update_of_ne hNe _ _).trans (List.mem_append_left _)
    · cases hStep
  | forget i => exact h.forget hQuiet hStep
  | arrive db =>
    cases hStep
    refine ⟨fun db' => ?_, fun db' hNow => ?_⟩
    · rw [List.countP_append]
      exact h.served db'
    · rcases hNow with hShown | hUnder
      · exact h.current db' (.inl hShown)
      · obtain ⟨r, hr, hUnder⟩ := List.countP_pos_iff.mp hUnder
        rcases List.mem_append.mp hr with hr | hr
        · exact h.current db' (.inr (List.countP_pos_iff.mpr ⟨r, hr, hUnder⟩))
        · cases List.mem_singleton.mp hr
          obtain ⟨hMetered, hEq⟩ := Bool.and_eq_true_iff.mp hUnder
          cases of_decide_eq_true hEq
          exact .inl hMetered
  | count i => exact h.count hStep
  | finish i => exact h.finish hStep
  | tick elapsed =>
    cases hStep
    exact ⟨h.served, h.current⟩

theorem series_known (actions : List Action) : Always step Known init actions :=
  always_of_invariant (fun _ _ _ h hStep => h.step hStep) known_init actions

theorem series_exact (actions : List Action) (hQuiet : Guarded step Quiet init actions) :
    Always step (fun s => Exact s ∧ Known s) init actions :=
  always_of_guarded (fun _ _ _ h hQuiet hStep => ⟨h.1.step hQuiet hStep, h.2.step hStep⟩) ⟨exact_init, known_init⟩ hQuiet

instance (s : State) (act : Action) : Decidable (Quiet s act) :=
  match act with
  | .forget i =>
    match h : s.drops[i]? with
    | some (.removed db) =>
      decidable_of_iff (s.reqs.countP (underWay db) = 0)
        ⟨fun hNone db' hEq => by cases h.symm.trans hEq; exact hNone, fun hAll => hAll db h⟩
    | some .done => isTrue fun db hEq => by cases h.symm.trans hEq
    | none => isTrue fun db hEq => by cases h.symm.trans hEq
  | .rollback db => inferInstanceAs (Decidable (s.reqs.countP (underWay db) = 0 ∧ ¬ Shown s.metrics db))
  | .add _ | .remove _ | .arrive _ | .count _ | .finish _ | .tick _ => isTrue trivial

/-- A request of an unknown database, and one that ends after its database has left the registry. -/
def dropBesideRequest : List Action :=
  [.add "d", .arrive "phantom", .count 0, .arrive "d", .count 1, .remove "d", .tick 7, .finish 1, .forget 0, .finish 0]

theorem dropBesideRequest_exact : Always step (fun s => Exact s ∧ Known s) init dropBesideRequest ∧
    (run step init dropBesideRequest).map (fun s => (s.metrics.requests "d", s.metrics.requests "phantom")) =
      some (none, none) :=
  ⟨series_exact dropBesideRequest (by decide +kernel), by decide +kernel⟩

/-- Forgotten before its last request ends, a database has a latency and no request. -/
example : (run step init [.add "d", .arrive "d", .count 0, .remove "d", .forget 0, .tick 7, .finish 0]).map
    (fun s => (s.backends "d", s.metrics.requests "d", s.metrics.latCount "d", s.metrics.latSum "d")) =
      some (false, none, some 1, some 7) := by
  decide +kernel

/-- A create that fails leaves the series of those who asked meanwhile. -/
example : (run step init [.add "d", .arrive "d", .count 0, .finish 0, .rollback "d"]).map
    (fun s => (s.backends "d", s.metrics.requests "d")) = some (false, some 1) := by
  decide +kernel

end QuicSql.Obs
