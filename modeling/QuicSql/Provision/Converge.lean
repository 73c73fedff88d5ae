import QuicSql.Lib.Mutex
import QuicSql.Lib.Transition
import QuicSql.Provision.Model

/-!
# Concurrent creates and detaches of one name

Creates, detaches and users of one name run at the same time, each split at its calls of
the registry, the feed, the meta store and the policy. There is no common lock. Every place
remembers the create that wrote it.
-/

namespace QuicSql.Provision

open Authz Lib

structure Origin where
  call : Nat
  spec : Spec
deriving DecidableEq, Repr

/-- Where a call stands, named by what it does next. -/
inductive Call where
  | adding (spec : Spec)
  | registering (spec : Spec)
  | getting (spec : Spec)
  | opening (spec : Spec)
  | releasing (spec : Spec)
  | persisting (spec : Spec)
  | unwinding (spec : Spec)
  | forgetting (spec : Spec)
  | revoking (spec : Spec)
  | granting (spec : Spec) (rest : List (String × Option Level))
  | created (spec : Spec)
  | createFailed
  | removing
  | forgettingName
  | deletingSpec
  | revokingName
  | detached
  | notDetached
  | userGetting
  | userOpening
  | userHolding
  | userDone
deriving DecidableEq, Repr

/-- The call keeps the handle of the name from being removed. -/
def Call.busy : Call → Bool
  | .opening _ | .releasing _ | .userOpening | .userHolding => true
  | _ => false

def Call.active : Call → Bool
  | .registering _ | .getting _ | .opening _ | .releasing _ | .persisting _ | .unwinding _ | .forgetting _
  | .revoking _ | .granting .. | .forgettingName | .deletingSpec | .revokingName => true
  | _ => false

def Call.done : Call → Bool
  | .created _ | .createFailed | .detached | .notDetached | .userDone => true
  | _ => false

structure Slot where
  registered : Option Origin
  observed : Option Origin
  persisted : Option Origin
  policy : Policy
  calls : List Call

/-- The feed observes databases that have a path. -/
def observes (feed : Bool) (spec : Spec) : Bool := feed && spec.path.isSome

namespace Slot

inductive Action where
  | create (spec : Spec)
  | detach
  | get
  /-- Call `n` takes its next step; `ok` tells whether an open or a write succeeds there. -/
  | step (n : Nat) (ok : Bool)

def init (base : Policy) (name : DbName) : Slot := ⟨none, none, none, base.revoke name, []⟩

def goto (s : Slot) (n : Nat) (c : Call) : Slot := { s with calls := s.calls.set n c }

def busy (s : Slot) : Bool := s.calls.any Call.busy

/-- The next section of call `n`. A spec that does not validate is refused before. -/
def advance (feed : Bool) (name : DbName) (s : Slot) (n : Nat) (ok : Bool) : Call → Option Slot
  | .adding spec =>
    match s.registered with
    | some _ => some (s.goto n .createFailed)
    | none => some { s.goto n (.registering spec) with registered := some ⟨n, spec⟩ }
  | .registering spec =>
    some { s.goto n (.getting spec) with observed := if observes feed spec then some ⟨n, spec⟩ else s.observed }
  | .getting spec => some (s.goto n (if s.registered.isSome then .opening spec else .unwinding spec))
  | .opening spec => some (s.goto n (if ok then .releasing spec else .unwinding spec))
  | .releasing spec => some (s.goto n (.persisting spec))
  | .persisting spec =>
    if ok then some { s.goto n (.revoking spec) with persisted := some ⟨n, spec⟩ }
    else some (s.goto n (.unwinding spec))
  | .unwinding spec =>
    some { s.goto n (.forgetting spec) with registered := if s.busy then s.registered else none }
  | .forgetting spec =>
    some { s.goto n .createFailed with observed := if observes feed spec then none else s.observed }
  | .revoking spec => some { s.goto n (.granting spec spec.grants) with policy := s.policy.revoke name }
  | .granting spec (g :: rest) =>
    some { s.goto n (.granting spec rest) with policy := s.policy.grantParsed name g.1 g.2 }
  | .granting spec [] => some (s.goto n (.created spec))
  | .removing =>
    match s.registered with
    | none => some (s.goto n .notDetached)
    | some _ =>
      if s.busy then some (s.goto n .notDetached) else some { s.goto n .forgettingName with registered := none }
  | .forgettingName => some { s.goto n .deletingSpec with observed := if feed then none else s.observed }
  | .deletingSpec => some { s.goto n .revokingName with persisted := none }
  | .revokingName => some { s.goto n .detached with policy := s.policy.revoke name }
  | .userGetting => some (s.goto n (if s.registered.isSome then .userOpening else .userDone))
  | .userOpening => some (s.goto n (if ok then .userHolding else .userDone))
  | .userHolding => some (s.goto n .userDone)
  | .created _ | .createFailed | .detached | .notDetached | .userDone => none

def start (s : Slot) (c : Call) : Slot := { s with calls := s.calls ++ [c] }

def step (feed : Bool) (name : DbName) (s : Slot) : Action → Option Slot
  | .create spec => some (s.start (.adding spec))
  | .detach => some (s.start .removing)
  | .get => some (s.start .userGetting)
  | .step n ok => s.calls[n]?.bind (advance feed name s n ok)

def Quiescent (s : Slot) : Prop := ∀ c ∈ s.calls, c.done = true

/-- All places stem from one create, which succeeded, or know nothing of the name. -/
structure Converged (feed : Bool) (name : DbName) (s : Slot) : Prop where
  persisted : s.persisted = s.registered
  observed : s.observed = s.registered.filter (fun o => observes feed o.spec)
  success : ∀ o, s.registered = some o → s.calls[o.call]? = some (.created o.spec)
  grants : ∀ o, s.registered = some o → s.policy.grants name = (grantAll name (newPolicy false) o.spec.grants).grants name
  absent : s.registered = none → s.policy.grants name = none

/-- The registry changes only when no other create or detach has its changes under way, and
the rollback of a create meets no user. -/
def Serial (s : Slot) : Action → Prop
  | .step n _ =>
    match s.calls[n]? with
    | some (.adding _) => s.registered = none → ∀ c ∈ s.calls, c.active = false
    | some .removing => s.registered ≠ none → s.busy = false → ∀ c ∈ s.calls, c.active = false
    | some (.unwinding _) => s.busy = false
    | _ => True
  | _ => True

instance (s : Slot) (a : Action) : Decidable (Serial s a) := by
  unfold Serial
  repeat' split
  all_goals infer_instance

/-! ## The call that is under way -/

/-- What the places hold while call `n` is the only one with changes under way. -/
def Stage (feed : Bool) (name : DbName) (s : Slot) (n : Nat) : Call → Prop
  | .registering spec =>
    s.registered = some ⟨n, spec⟩ ∧ s.observed = none ∧ s.persisted = none ∧ s.policy.grants name = none
  | .getting spec | .opening spec | .releasing spec | .persisting spec | .unwinding spec =>
    s.registered = some ⟨n, spec⟩ ∧ s.observed = (if observes feed spec then some ⟨n, spec⟩ else none) ∧
      s.persisted = none ∧ s.policy.grants name = none
  | .forgetting spec =>
    s.registered = none ∧ s.observed = (if observes feed spec then some ⟨n, spec⟩ else none) ∧
      s.persisted = none ∧ s.policy.grants name = none
  | .revoking spec =>
    s.registered = some ⟨n, spec⟩ ∧ s.observed = (if observes feed spec then some ⟨n, spec⟩ else none) ∧
      s.persisted = some ⟨n, spec⟩
  | .granting spec rest =>
    s.registered = some ⟨n, spec⟩ ∧ s.observed = (if observes feed spec then some ⟨n, spec⟩ else none) ∧
      s.persisted = some ⟨n, spec⟩ ∧
      (grantAll name s.policy rest).grants name = (grantAll name (newPolicy false) spec.grants).grants name
  | .forgettingName => s.registered = none ∧ (feed = false → s.observed = none)
  | .deletingSpec => s.registered = none ∧ s.observed = none
  | .revokingName => s.registered = none ∧ s.observed = none ∧ s.persisted = none
  | _ => True

/-- The mark of a call with changes under way, as a lock. -/
def marks (c : Call) : List Unit := if c.active then [()] else []

structure Inv (feed : Bool) (name : DbName) (s : Slot) : Prop where
  alone : Exclusive marks s.calls
  stage : ∀ n c, s.calls[n]? = some c → Stage feed name s n c
  settled : (∀ c ∈ s.calls, c.active = false) → Converged feed name s

variable {feed : Bool} {name : DbName} {s t : Slot} {n : Nat}

theorem stage_of_inactive {c : Call} (h : c.active = false) : Stage feed name s n c := by
  cases c <;> trivial

theorem grantAll_congr {p q : Policy} (grants : List (String × Option Level)) (h : p.grants name = q.grants name) :
    (grantAll name p grants).grants name = (grantAll name q grants).grants name := by
  induction grants generalizing p q with
  | nil => exact h
  | cons g rest ih => exact ih (Policy.grantParsed_congr g.1 g.2 h)

theorem Inv.still (h : Inv feed name s) {c d : Call} (hc : s.calls[n]? = some c) (hActiveC : c.active = false)
    (hActiveD : d.active = false) (hNot : ∀ spec, c ≠ .created spec) : Inv feed name (s.goto n d) := by
  refine ⟨h.alone.set hc (fun l hl => ?_), fun m e he => ?_, fun hNone => ?_⟩
  · rw [marks, hActiveD] at hl
    cases hl
  · rcases getElem?_set_cases he with ⟨rfl, rfl⟩ | ⟨-, hOld⟩
    · exact stage_of_inactive hActiveD
    · exact h.stage m e hOld
  · have hOld : ∀ e ∈ s.calls, e.active = false := by
      intro e he
      rcases mem_set_of_mem (d := d) hc he with rfl | hIn
      · exact hActiveC
      · exact hNone e hIn
    obtain ⟨hPersisted, hObserved, hSuccess, hGrants, hAbsent⟩ := h.settled hOld
    refine ⟨hPersisted, hObserved, fun o ho => ?_, hGrants, hAbsent⟩
    have hNe : n ≠ o.call := by
      rintro rfl
      exact hNot o.spec (Option.some.inj (hc.symm.trans (hSuccess o ho)))
    exact (List.getElem?_set_ne hNe).trans (hSuccess o ho)

theorem Inv.moves (h : Inv feed name s) {c d : Call} (hc : s.calls[n]? = some c)
    (hOthers : c.active = true ∨ ∀ e ∈ s.calls, e.active = false) (hCalls : t.calls = s.calls.set n d)
    (hStage : Stage feed name t n d) (hSettled : d.active = false → Converged feed name t) : Inv feed name t := by
  have hMark : ∀ {e : Call}, e.active = true → () ∈ marks e := by
    intro e he
    rw [marks, he]
    exact List.mem_singleton_self ()
  refine ⟨?_, fun m e he => ?_, fun hNone => hSettled (hNone d ?_)⟩
  · rw [hCalls]
    refine h.alone.set hc fun l _ => hOthers.imp hMark fun hFree e he hl => ?_
    rw [marks, hFree e he] at hl
    cases hl
  · rw [hCalls] at he
    rcases getElem?_set_cases he with ⟨rfl, rfl⟩ | ⟨hNe, hOld⟩
    · exact hStage
    · refine stage_of_inactive (Bool.eq_false_iff.mpr fun hActive => ?_)
      rcases hOthers with hSelf | hFree
      · exact hNe (h.alone hc hOld (hMark hSelf) (hMark hActive))
      · rw [hFree e (List.mem_of_getElem? hOld)] at hActive
        cases hActive
  · rw [hCalls]
    exact mem_set_self hc

theorem Inv.goes_on (h : Inv feed name s) {c d : Call} (hc : s.calls[n]? = some c) (hActive : c.active = true)
    (hNext : d.active = true) (hCalls : t.calls = s.calls.set n d) (hStage : Stage feed name t n d) : Inv feed name t := by
  refine h.moves hc (.inl hActive) hCalls hStage fun hSettled => ?_
  rw [hNext] at hSettled
  cases hSettled

theorem init_inv (base : Policy) : Inv feed name (init base name) where
  alone := exclusive_nil
  stage := fun n c hc => by cases hc
  settled := fun _ => by
    refine ⟨rfl, rfl, fun o ho => ?_, fun o ho => ?_, fun _ => ?_⟩
    · cases ho
    · cases ho
    · exact Function.update_self _ _ _

theorem Inv.start (h : Inv feed name s) {c : Call} (hActive : c.active = false) : Inv feed name (s.start c) := by
  have hMarks : marks c = [] := by
    rw [marks, hActive]
    rfl
  refine ⟨h.alone.append hMarks, fun m e he => ?_, fun hNone => ?_⟩
  · rcases getElem?_append_cases he with ⟨-, rfl⟩ | ⟨-, hOld⟩
    · exact stage_of_inactive hActive
    · exact h.stage m e hOld
  · obtain ⟨hPersisted, hObserved, hSuccess, hGrants, hAbsent⟩ := h.settled fun e he => hNone e (List.mem_append_left _ he)
    refine ⟨hPersisted, hObserved, fun o ho => ?_, hGrants, hAbsent⟩
    exact getElem?_append_of_some (hSuccess o ho)

/-! ## Steps of creates and detaches -/

/-- A name that is not registered is unknown everywhere once all changes are made. -/
theorem Converged.unknown (h : Converged feed name s) (hNone : s.registered = none) :
    s.observed = none ∧ s.persisted = none ∧ s.policy.grants name = none := by
  refine ⟨?_, h.persisted.trans hNone, h.absent hNone⟩
  rw [h.observed, hNone]
  rfl

theorem Converged.unobserved (h : Converged feed name s) (hFeed : feed = false) : s.observed = none := by
  rw [h.observed]
  refine Option.filter_eq_none_iff.mpr fun o _ => ?_
  simp [observes, hFeed]

theorem add_inv (h : Inv feed name s) {spec : Spec} {ok : Bool} (hc : s.calls[n]? = some (.adding spec))
    (hSerial : s.registered = none → ∀ c ∈ s.calls, c.active = false)
    (hStep : advance feed name s n ok (.adding spec) = some t) : Inv feed name t := by
  rw [advance] at hStep
  split at hStep
  · cases hStep
    exact h.still hc rfl rfl (fun _ hEq => by cases hEq)
  · rename_i hNone
    cases hStep
    have hFree := hSerial hNone
    obtain ⟨hObserved, hPersisted, hGrants⟩ := (h.settled hFree).unknown hNone
    exact h.moves hc (.inr hFree) rfl ⟨rfl, hObserved, hPersisted, hGrants⟩ (fun hEq => by cases hEq)

theorem remove_inv (h : Inv feed name s) {ok : Bool} (hc : s.calls[n]? = some .removing)
    (hSerial : s.registered ≠ none → s.busy = false → ∀ c ∈ s.calls, c.active = false)
    (hStep : advance feed name s n ok .removing = some t) : Inv feed name t := by
  rw [advance] at hStep
  split at hStep
  · cases hStep
    exact h.still hc rfl rfl (fun _ hEq => by cases hEq)
  · rename_i o hSome
    split at hStep
    · cases hStep
      exact h.still hc rfl rfl (fun _ hEq => by cases hEq)
    · rename_i hBusy
      cases hStep
      have hFree := hSerial (by simp [hSome]) (Bool.eq_false_iff.mpr hBusy)
      exact h.moves hc (.inr hFree) rfl ⟨rfl, (h.settled hFree).unobserved⟩ (fun hEq => by cases hEq)

theorem created_converged {spec : Spec} (hLength : n < s.calls.length)
    (h : Stage feed name s n (.granting spec [])) : Converged feed name (s.goto n (.created spec)) := by
  obtain ⟨hRegistered, hObserved, hPersisted, hGrants⟩ := h
  refine ⟨hPersisted.trans hRegistered.symm, ?_, fun o ho => ?_, fun o ho => ?_, fun hNone => ?_⟩
  · change s.observed = s.registered.filter _
    rw [hObserved, hRegistered]
    rfl
  · cases hRegistered.symm.trans ho
    exact List.getElem?_set_self hLength
  · cases hRegistered.symm.trans ho
    exact hGrants
  · cases hRegistered.symm.trans hNone

theorem unknown_converged (hRegistered : s.registered = none) (hObserved : s.observed = none)
    (hPersisted : s.persisted = none) (hGrants : s.policy.grants name = none) : Converged feed name s := by
  refine ⟨hPersisted.trans hRegistered.symm, ?_, fun o ho => ?_, fun o ho => ?_, fun _ => hGrants⟩
  · rw [hObserved, hRegistered]
    rfl
  · cases hRegistered.symm.trans ho
  · cases hRegistered.symm.trans ho

theorem active_inv (h : Inv feed name s) {c : Call} {ok : Bool} (hc : s.calls[n]? = some c) (hActive : c.active = true)
    (hSerial : ∀ spec, c = .unwinding spec → s.busy = false) (hStep : advance feed name s n ok c = some t) :
    Inv feed name t := by
  have hStage := h.stage n c hc
  have hLength := (List.getElem?_eq_some_iff.mp hc).1
  cases c with
  | registering spec =>
    obtain ⟨hRegistered, hObserved, hPersisted, hGrants⟩ := hStage
    cases hStep
    refine h.goes_on hc rfl rfl rfl ⟨hRegistered, ?_, hPersisted, hGrants⟩
    change (if _ then _ else s.observed) = _
    rw [hObserved]
  | getting spec =>
    have hSome : s.registered.isSome = true := by
      rw [hStage.1]
      rfl
    rw [advance, if_pos hSome] at hStep
    cases hStep
    exact h.goes_on hc rfl rfl rfl hStage
  | opening spec =>
    cases hStep
    cases ok with
    | true => exact h.goes_on hc rfl rfl rfl hStage
    | false => exact h.goes_on hc rfl rfl rfl hStage
  | releasing spec =>
    cases hStep
    exact h.goes_on hc rfl rfl rfl hStage
  | persisting spec =>
    cases ok with
    | true =>
      cases hStep
      exact h.goes_on hc rfl rfl rfl ⟨hStage.1, hStage.2.1, rfl⟩
    | false =>
      cases hStep
      exact h.goes_on hc rfl rfl rfl hStage
  | unwinding spec =>
    rw [advance, hSerial spec rfl] at hStep
    cases hStep
    exact h.goes_on hc rfl rfl rfl ⟨rfl, hStage.2⟩
  | forgetting spec =>
    obtain ⟨hRegistered, hObserved, hPersisted, hGrants⟩ := hStage
    cases hStep
    refine h.moves hc (.inl rfl) rfl trivial fun _ => unknown_converged hRegistered ?_ hPersisted hGrants
    change (if _ then none else s.observed) = none
    rw [hObserved]
    split <;> rfl
  | revoking spec =>
    cases hStep
    refine h.goes_on hc rfl rfl rfl ⟨hStage.1, hStage.2.1, hStage.2.2, ?_⟩
    exact grantAll_congr spec.grants (Function.update_self _ _ _)
  | granting spec rest =>
    cases rest with
    | nil =>
      cases hStep
      exact h.moves hc (.inl rfl) rfl trivial fun _ => created_converged hLength hStage
    | cons g rest =>
      cases hStep
      exact h.goes_on hc rfl rfl rfl hStage
  | forgettingName =>
    cases hStep
    refine h.goes_on hc rfl rfl rfl ⟨hStage.1, ?_⟩
    cases feed with
    | true => rfl
    | false => exact hStage.2 rfl
  | deletingSpec =>
    cases hStep
    exact h.goes_on hc rfl rfl rfl ⟨hStage.1, hStage.2, rfl⟩
  | revokingName =>
    cases hStep
    refine h.moves hc (.inl rfl) rfl trivial fun _ => unknown_converged hStage.1 hStage.2.1 hStage.2.2 ?_
    exact Function.update_self _ _ _
  | _ => cases hActive

theorem user_inv (h : Inv feed name s) {c : Call} {ok : Bool} (hc : s.calls[n]? = some c)
    (hUser : c = .userGetting ∨ c = .userOpening ∨ c = .userHolding) (hStep : advance feed name s n ok c = some t) :
    Inv feed name t := by
  rcases hUser with rfl | rfl | rfl <;> cases hStep
  · exact h.still hc rfl (by split <;> rfl) (fun _ hEq => by cases hEq)
  · exact h.still hc rfl (by split <;> rfl) (fun _ hEq => by cases hEq)
  · exact h.still hc rfl rfl (fun _ hEq => by cases hEq)

theorem inactive_cases {c : Call} (h : c.active = false) :
    (∃ spec, c = .adding spec) ∨ c = .removing ∨ (c = .userGetting ∨ c = .userOpening ∨ c = .userHolding) ∨
      c.done = true := by
  cases c <;> simp_all [Call.active, Call.done]

theorem advance_done {c : Call} {ok : Bool} (h : c.done = true) : advance feed name s n ok c = none := by
  cases c <;> first | rfl | cases h

theorem step_inv (h : Inv feed name s) {a : Action} (hSerial : Serial s a) (hStep : step feed name s a = some t) :
    Inv feed name t := by
  cases a with
  | create spec =>
    cases hStep
    exact h.start rfl
  | detach =>
    cases hStep
    exact h.start rfl
  | get =>
    cases hStep
    exact h.start rfl
  | step n ok =>
    obtain ⟨c, hc, hStep⟩ := Option.bind_eq_some_iff.mp hStep
    rw [Serial, hc] at hSerial
    cases hActive : c.active with
    | true =>
      refine active_inv h hc hActive ?_ hStep
      rintro spec rfl
      exact hSerial
    | false =>
      rcases inactive_cases hActive with ⟨spec, rfl⟩ | rfl | hUser | hDone
      · exact add_inv h hc hSerial hStep
      · exact remove_inv h hc hSerial hStep
      · exact user_inv h hc hUser hStep
      · rw [advance_done hDone] at hStep
        cases hStep

/-- Creates and detaches of a name converge if their changes do not overlap. -/
theorem create_detach_converge (feed : Bool) (name : DbName) (base : Policy) (actions : List Action)
    (hSerial : Guarded (step feed name) Serial (init base name) actions) :
    Always (step feed name) (fun s => s.Quiescent → s.Converged feed name) (init base name) actions := by
  have hAlways : Always (step feed name) (Inv feed name) (init base name) actions :=
    always_of_guarded (fun s a t h hCond hStep => step_inv h hCond hStep) (init_inv base) hSerial
  refine hAlways.mono fun s h hQuiet => h.settled fun c hc => ?_
  have hDone := hQuiet c hc
  cases c <;> first | rfl | cases hDone

def sampleSpec (principal : String) : Spec := ⟨"d", some "/data/d.db", [(principal, some .readWrite)]⟩

/-- A create whose open fails, a create, a user that makes a detach wait, and the detach. -/
theorem busy_detach_converges :
    Always (step true "d") (fun s => s.Quiescent → s.Converged true "d") (init (newPolicy false) "d")
      [.create (sampleSpec "ann"), .step 0 true, .step 0 true, .step 0 true, .step 0 false, .step 0 true, .step 0 true,
        .create (sampleSpec "bob"), .step 1 true, .step 1 true, .step 1 true, .step 1 true, .step 1 true, .step 1 true,
        .step 1 true, .step 1 true, .step 1 true, .get, .step 2 true, .detach, .step 3 true, .step 2 false, .detach,
        .step 4 true, .step 4 true, .step 4 true, .step 4 true] :=
  create_detach_converge true "d" (newPolicy false) _ (by decide +kernel)

/-- A create runs between the first and the later changes of a detach. -/
def overtakenDetach : List Action :=
  [.create (sampleSpec "ann"), .step 0 true, .step 0 true, .step 0 true, .step 0 true, .step 0 true, .step 0 true,
    .step 0 true, .step 0 true, .step 0 true, .detach, .step 1 true, .create (sampleSpec "bob"), .step 2 true,
    .step 2 true, .step 2 true, .step 2 true, .step 2 true, .step 2 true, .step 2 true, .step 2 true, .step 2 true,
    .step 1 true, .step 1 true, .step 1 true]

theorem detach_undoes_create :
    ¬ Always (step true "d") (fun s => s.Quiescent → s.Converged true "d") (init (newPolicy false) "d")
      overtakenDetach := by
  intro hAlways
  have hCalls : (run (step true "d") (init (newPolicy false) "d") overtakenDetach).map Slot.calls =
      some [.created (sampleSpec "ann"), .detached, .created (sampleSpec "bob")] := by
    decide +kernel
  have hPlaces : (run (step true "d") (init (newPolicy false) "d") overtakenDetach).map
      (fun s => [s.registered, s.observed, s.persisted]) = some [some ⟨2, sampleSpec "bob"⟩, none, none] := by
    decide +kernel
  obtain ⟨s, hs, hDone⟩ := Option.map_eq_some_iff.mp hCalls
  rw [hs, Option.map_some, Option.some.injEq] at hPlaces
  simp only [List.cons.injEq, and_true] at hPlaces
  obtain ⟨hRegistered, -, hPersisted⟩ := hPlaces
  have hQuiet : s.Quiescent := by
    rw [Quiescent, hDone]
    decide
  have hSame := (hAlways.final hs hQuiet).persisted
  rw [hRegistered, hPersisted] at hSame
  cases hSame

end Slot

end QuicSql.Provision
