import QuicSql.Enroll.Model

/-!
# The gates of the principals

`lockGate` keeps a gate for every name that somebody waits for or holds. It registers with
the gate under `gateMu`, locks the gate's own mutex outside of it, and the function it returns
unlocks the mutex and deregisters; the last one out deletes the gate from the map. Callers
are interleaved at these four steps.
-/

namespace QuicSql.Enroll.Gates

open Lib

abbrev GateId := Nat

structure ProvGate where
  locked : Bool
  refs : Int
deriving DecidableEq, Repr

/-- Where a caller stands, with the gate it has a pointer to. It holds the gate from the
return of `lockGate` to the unlock. -/
inductive Position where
  | arrived
  | waiting (g : GateId)
  | holding (g : GateId)
  | unlocked (g : GateId)
  | done
deriving DecidableEq, Repr

structure Caller where
  name : Name
  pos : Position
deriving DecidableEq, Repr

/-- The gate of a caller that has registered and not yet deregistered. -/
def Caller.gate (c : Caller) : Option GateId :=
  match c.pos with
  | .waiting g | .holding g | .unlocked g => some g
  | .arrived | .done => none

def Caller.holds (c : Caller) : Option GateId :=
  match c.pos with
  | .holding g => some g
  | _ => none

def Caller.locks (c : Caller) : List Name :=
  match c.pos with
  | .holding _ => [c.name]
  | _ => []

def registeredAt (g : GateId) (c : Caller) : Bool := c.gate = some g

def holdsAt (g : GateId) (c : Caller) : Bool := c.holds = some g

/-- The map, and every gate that was ever made; `fresh` is the next one. -/
structure State where
  gates : Name → Option GateId
  heap : GateId → ProvGate
  fresh : GateId
  callers : List Caller

inductive Action where
  | call (name : Name)
  | advance (i : Nat)

def start : State := ⟨fun _ => none, fun _ => ⟨false, 0⟩, 0, []⟩

namespace State

variable (s : State) (i : Nat) (name : Name) (g : GateId)

def register : State :=
  match s.gates name with
  | some g =>
    { s with
      heap := Function.update s.heap g { s.heap g with refs := (s.heap g).refs + 1 }
      callers := s.callers.set i ⟨name, .waiting g⟩ }
  | none =>
    { gates := Function.update s.gates name (some s.fresh)
      heap := Function.update s.heap s.fresh ⟨false, 1⟩
      fresh := s.fresh + 1
      callers := s.callers.set i ⟨name, .waiting s.fresh⟩ }

def lock : Option State :=
  if (s.heap g).locked then none
  else
    some { s with
      heap := Function.update s.heap g { s.heap g with locked := true }
      callers := s.callers.set i ⟨name, .holding g⟩ }

def unlock : State :=
  { s with
    heap := Function.update s.heap g { s.heap g with locked := false }
    callers := s.callers.set i ⟨name, .unlocked g⟩ }

def deregister : State :=
  { s with
    gates := if (s.heap g).refs - 1 = 0 then Function.update s.gates name none else s.gates
    heap := Function.update s.heap g { s.heap g with refs := (s.heap g).refs - 1 }
    callers := s.callers.set i ⟨name, .done⟩ }

def advance (c : Caller) : Option State :=
  match c.pos with
  | .arrived => some (s.register i c.name)
  | .waiting g => s.lock i c.name g
  | .holding g => some (s.unlock i c.name g)
  | .unlocked g => some (s.deregister i c.name g)
  | .done => none

def step : Action → Option State
  | .call name => some { s with callers := s.callers ++ [⟨name, .arrived⟩] }
  | .advance i => (s.callers[i]?).bind (s.advance i)

end State

/-! ## What holds throughout -/

/-- Who is registered has the gate of the map, and the map has only gates that somebody is
registered with. -/
structure Inv (s : State) : Prop where
  mapped : ∀ c ∈ s.callers, ∀ g, c.gate = some g → s.gates c.name = some g
  made : ∀ name g, s.gates name = some g → g < s.fresh
  distinct : ∀ name name' g, s.gates name = some g → s.gates name' = some g → name = name'
  needed : ∀ name g, s.gates name = some g → 0 < (s.heap g).refs
  refs : ∀ g, (s.heap g).refs = s.callers.countP (registeredAt g)
  locked : ∀ g, s.callers.countP (holdsAt g) = (s.heap g).locked.toNat

theorem start_inv : Inv start where
  mapped _ hc := by cases hc
  made _ _ h := by cases h
  distinct _ _ _ h := by cases h
  needed _ _ h := by cases h
  refs _ := rfl
  locked _ := rfl

variable {s : State} {i : Nat} {c : Caller} {name : Name} {g : GateId}

theorem Caller.gate_of_holds (h : c.holds = some g) : c.gate = some g := by
  unfold Caller.holds at h
  unfold Caller.gate
  split at h
  · rename_i hPos
    rw [hPos]
    exact h
  · cases h

theorem Caller.mem_locks : name ∈ c.locks ↔ c.name = name ∧ ∃ g, c.holds = some g := by
  obtain ⟨caller, pos⟩ := c
  cases pos <;> simp [Caller.locks, Caller.holds, eq_comm]

theorem registeredAt_toNat {g' : GateId} (h : c.gate = some g) :
    (registeredAt g' c).toNat = if g = g' then 1 else 0 := by
  unfold registeredAt
  rw [h]
  by_cases hEq : g = g' <;> simp [hEq]

theorem registeredAt_none (h : c.gate = none) : (registeredAt g c).toNat = 0 := by simp [registeredAt, h]

theorem holdsAt_toNat {g' : GateId} (h : c.holds = some g) : (holdsAt g' c).toNat = if g = g' then 1 else 0 := by
  unfold holdsAt
  rw [h]
  by_cases hEq : g = g' <;> simp [hEq]

theorem holdsAt_elsewhere {g' : GateId} (h : c.gate = some g) (hNe : g' ≠ g) : (holdsAt g' c).toNat = 0 := by
  rw [Bool.toNat_eq_zero, holdsAt, decide_eq_false_iff_not]
  intro hHolds
  rw [Caller.gate_of_holds hHolds, Option.some_inj] at h
  exact hNe h

theorem holdsAt_none (h : c.holds = none) : (holdsAt g c).toNat = 0 := by simp [holdsAt, h]

theorem update_eq_some {gates : Name → Option GateId} {v : Option GateId} {name' : Name}
    (h : Function.update gates name v name' = some g) :
    name' = name ∧ v = some g ∨ name' ≠ name ∧ gates name' = some g := by
  rcases eq_or_ne name' name with rfl | hNe
  · rw [Function.update_self] at h
    exact .inl ⟨rfl, h⟩
  · rw [Function.update_of_ne hNe] at h
    exact .inr ⟨hNe, h⟩

namespace Inv

theorem no_entry (h : Inv s) (hNone : ∀ c ∈ s.callers, c.name = name → c.gate = none) : s.gates name = none := by
  cases hEntry : s.gates name with
  | none => rfl
  | some g =>
    have hCount : 0 < s.callers.countP (registeredAt g) := by
      have hNeeded := h.needed name g hEntry
      rw [h.refs g] at hNeeded
      exact_mod_cast hNeeded
    obtain ⟨c, hc, hAt⟩ := List.countP_pos_iff.mp hCount
    have hGate : c.gate = some g := of_decide_eq_true hAt
    rw [hNone c hc (h.distinct _ _ g (h.mapped c hc g hGate) hEntry)] at hGate
    cases hGate

theorem call (h : Inv s) (name : Name) : Inv { s with callers := s.callers ++ [⟨name, .arrived⟩] } where
  mapped d hd g hGate := by
    rcases List.mem_append.mp hd with hOld | hNew
    · exact h.mapped d hOld g hGate
    · rw [List.mem_singleton.mp hNew] at hGate
      cases hGate
  made := h.made
  distinct := h.distinct
  needed := h.needed
  refs g := by
    rw [h.refs, List.countP_append]
    rfl
  locked g := by
    rw [← h.locked, List.countP_append]
    rfl

theorem fresh_unused (h : Inv s) (hc : c ∈ s.callers) : c.gate ≠ some s.fresh := by
  intro hGate
  exact absurd (h.made _ _ (h.mapped c hc _ hGate)) (Nat.lt_irrefl _)

theorem refs_fresh (h : Inv s) : (s.heap s.fresh).refs = 0 := by
  rw [h.refs, Int.natCast_eq_zero, List.countP_eq_zero]
  intro c hc hAt
  exact h.fresh_unused hc (of_decide_eq_true hAt)

theorem locked_fresh (h : Inv s) : (s.heap s.fresh).locked = false := by
  rw [← Bool.toNat_eq_zero, ← h.locked, List.countP_eq_zero]
  intro c hc hAt
  exact h.fresh_unused hc (Caller.gate_of_holds (of_decide_eq_true hAt))

theorem locked_of_holds (h : Inv s) (hc : c ∈ s.callers) (hHolds : c.holds = some g) : (s.heap g).locked = true := by
  have hCount : 0 < s.callers.countP (holdsAt g) := List.countP_pos_iff.mpr ⟨c, hc, decide_eq_true hHolds⟩
  rw [h.locked g] at hCount
  cases hLocked : (s.heap g).locked with
  | true => rfl
  | false =>
    rw [hLocked] at hCount
    cases hCount

theorem refs_move (h : Inv s) (hc : s.callers[i]? = some c) {d : Caller} {heap : GateId → ProvGate}
    (hRefs : ∀ g, (heap g).refs + (registeredAt g c).toNat = (s.heap g).refs + (registeredAt g d).toNat) (g : GateId) :
    (heap g).refs = (s.callers.set i d).countP (registeredAt g) := by
  have hCount := countP_set_add (p := registeredAt g) (b := d) hc
  have hOld := h.refs g
  have hNew := hRefs g
  omega

theorem locked_move (h : Inv s) (hc : s.callers[i]? = some c) {d : Caller} {heap : GateId → ProvGate}
    (hLocked : ∀ g, (heap g).locked.toNat + (holdsAt g c).toNat = (s.heap g).locked.toNat + (holdsAt g d).toNat)
    (g : GateId) : (s.callers.set i d).countP (holdsAt g) = (heap g).locked.toNat := by
  have hCount := countP_set_add (p := holdsAt g) (b := d) hc
  have hOld := h.locked g
  have hNew := hLocked g
  omega

theorem locked_idle (h : Inv s) (hc : s.callers[i]? = some c) {d : Caller} {heap : GateId → ProvGate}
    (hBefore : c.holds = none) (hAfter : d.holds = none) (hSame : ∀ g, (heap g).locked = (s.heap g).locked) (g : GateId) :
    (s.callers.set i d).countP (holdsAt g) = (heap g).locked.toNat := by
  apply h.locked_move hc
  intro g'
  rw [holdsAt_none hBefore, holdsAt_none hAfter, hSame g']

theorem register_known (h : Inv s) (hc : s.callers[i]? = some ⟨name, .arrived⟩) (hEntry : s.gates name = some g) :
    Inv { s with
      heap := Function.update s.heap g { s.heap g with refs := (s.heap g).refs + 1 }
      callers := s.callers.set i ⟨name, .waiting g⟩ } where
  mapped := forall_mem_set h.mapped (by rintro g' ⟨⟩; exact hEntry)
  made := h.made
  distinct := h.distinct
  needed name' g' hEntry' := by
    have hNeeded := h.needed name' g' hEntry'
    rcases eq_or_ne g' g with rfl | hNe
    · simp only [Function.update_self]
      omega
    · simpa only [Function.update_of_ne hNe] using hNeeded
  refs := by
    apply h.refs_move hc
    intro g'
    rw [registeredAt_none rfl, registeredAt_toNat rfl]
    rcases eq_or_ne g' g with rfl | hNe
    · simp
    · simp [Function.update_of_ne hNe, hNe.symm]
  locked := by
    apply h.locked_idle hc rfl rfl
    intro g'
    rcases eq_or_ne g' g with rfl | hNe
    · simp
    · simp [Function.update_of_ne hNe]

theorem register_new (h : Inv s) (hc : s.callers[i]? = some ⟨name, .arrived⟩) (hEntry : s.gates name = none) :
    Inv {
      gates := Function.update s.gates name (some s.fresh)
      heap := Function.update s.heap s.fresh ⟨false, 1⟩
      fresh := s.fresh + 1
      callers := s.callers.set i ⟨name, .waiting s.fresh⟩ } where
  mapped := by
    apply forall_mem_set
    · intro d hd g hGate
      -- nobody is registered for a name that has no entry
      have hOld := h.mapped d hd g hGate
      have hNe : d.name ≠ name := by
        intro hEq
        rw [hEq, hEntry] at hOld
        cases hOld
      exact (Function.update_of_ne hNe ..).trans hOld
    · rintro g' ⟨⟩
      exact Function.update_self ..
  made name' g' hNew := by
    rcases update_eq_some hNew with ⟨-, hFresh⟩ | ⟨-, hOld⟩
    · cases hFresh
      exact Nat.lt_succ_self _
    · exact Nat.lt_succ_of_lt (h.made name' g' hOld)
  distinct name₁ name₂ g' h₁ h₂ := by
    rcases update_eq_some h₁ with ⟨rfl, hFresh⟩ | ⟨-, hOld⟩
    · rcases update_eq_some h₂ with ⟨rfl, -⟩ | ⟨-, hOld⟩
      · rfl
      · cases hFresh
        exact absurd (h.made _ _ hOld) (Nat.lt_irrefl _)
    · rcases update_eq_some h₂ with ⟨-, hFresh⟩ | ⟨-, hOld'⟩
      · cases hFresh
        exact absurd (h.made _ _ hOld) (Nat.lt_irrefl _)
      · exact h.distinct _ _ g' hOld hOld'
  needed name' g' hNew := by
    rcases update_eq_some hNew with ⟨-, hFresh⟩ | ⟨-, hOld⟩
    · cases hFresh
      simp
    · have hNe : g' ≠ s.fresh := Nat.ne_of_lt (h.made name' g' hOld)
      simpa [Function.update_of_ne hNe] using h.needed name' g' hOld
  refs := by
    apply h.refs_move hc
    intro g'
    rw [registeredAt_none rfl, registeredAt_toNat rfl]
    rcases eq_or_ne g' s.fresh with rfl | hNe
    · simp [h.refs_fresh]
    · simp [Function.update_of_ne hNe, hNe.symm]
  locked := by
    apply h.locked_idle hc rfl rfl
    intro g'
    rcases eq_or_ne g' s.fresh with rfl | hNe
    · simp [h.locked_fresh]
    · simp [Function.update_of_ne hNe]

theorem relock (h : Inv s) (hc : s.callers[i]? = some c) {d : Caller} {b : Bool} (hName : d.name = c.name)
    (hGate : c.gate = some g) (hSame : d.gate = some g)
    (hHere : b.toNat + (holdsAt g c).toNat = (s.heap g).locked.toNat + (holdsAt g d).toNat) :
    Inv { s with
      heap := Function.update s.heap g { s.heap g with locked := b }
      callers := s.callers.set i d } where
  mapped := by
    apply forall_mem_set h.mapped
    intro g' hGate'
    rw [hSame] at hGate'
    cases hGate'
    rw [hName]
    exact h.mapped c (List.mem_of_getElem? hc) g hGate
  made := h.made
  distinct := h.distinct
  needed name' g' hEntry := by
    have hNeeded := h.needed name' g' hEntry
    rcases eq_or_ne g' g with rfl | hNe
    · simpa using hNeeded
    · simpa [Function.update_of_ne hNe] using hNeeded
  refs := by
    apply h.refs_move hc
    intro g'
    rw [registeredAt_toNat hGate, registeredAt_toNat hSame]
    rcases eq_or_ne g' g with rfl | hNe
    · simp
    · simp [Function.update_of_ne hNe]
  locked := by
    apply h.locked_move hc
    intro g'
    rcases eq_or_ne g' g with rfl | hNe
    · simpa using hHere
    · dsimp only
      rw [Function.update_of_ne hNe, holdsAt_elsewhere hGate hNe, holdsAt_elsewhere hSame hNe]

theorem deregister (h : Inv s) (hc : s.callers[i]? = some ⟨name, .unlocked g⟩) : Inv (s.deregister i name g) := by
  have hEntry : s.gates name = some g := h.mapped _ (List.mem_of_getElem? hc) g rfl
  have hRefs : ∀ g', ((s.deregister i name g).heap g').refs = (s.callers.set i ⟨name, .done⟩).countP (registeredAt g') := by
    apply h.refs_move hc
    intro g'
    rw [registeredAt_toNat rfl, registeredAt_none rfl]
    rcases eq_or_ne g' g with rfl | hNe
    · simp [State.deregister]
    · simp [State.deregister, Function.update_of_ne hNe, hNe.symm]
  have hHere : ((s.deregister i name g).heap g).refs = (s.heap g).refs - 1 := by simp [State.deregister]
  -- an entry of the map after the step was one before it, and is of another name or still counted
  have hKept : ∀ name' g', (s.deregister i name g).gates name' = some g' →
      s.gates name' = some g' ∧ (name' = name → (s.heap g).refs - 1 ≠ 0) := by
    intro name' g' hNew
    simp only [State.deregister] at hNew
    split at hNew
    · rcases update_eq_some hNew with ⟨-, hNone⟩ | ⟨hNe, hOld⟩
      · cases hNone
      · exact ⟨hOld, fun hEq => absurd hEq hNe⟩
    · rename_i hCounted
      exact ⟨hNew, fun _ => hCounted⟩
  refine ⟨?_, ?_, ?_, ?_, hRefs, ?_⟩
  · intro d hd g' hGate
    have hOld : s.gates d.name = some g' := by
      rcases List.mem_or_eq_of_mem_set hd with hOld | rfl
      · exact h.mapped d hOld g' hGate
      · cases hGate
    simp only [State.deregister]
    split
    · rename_i hLast
      -- the caller that is left would be counted
      have hNe : d.name ≠ name := by
        intro hEq
        rw [hEq, hEntry, Option.some_inj] at hOld
        subst hOld
        have hCount : 0 < (s.callers.set i ⟨name, .done⟩).countP (registeredAt g) :=
          List.countP_pos_iff.mpr ⟨d, hd, decide_eq_true hGate⟩
        have hZero := hRefs g
        omega
      rwa [Function.update_of_ne hNe]
    · exact hOld
  · intro name' g' hNew
    exact h.made name' g' (hKept name' g' hNew).1
  · intro name₁ name₂ g' h₁ h₂
    exact h.distinct _ _ g' (hKept _ _ h₁).1 (hKept _ _ h₂).1
  · intro name' g' hNew
    obtain ⟨hOld, hCounted⟩ := hKept name' g' hNew
    rcases eq_or_ne name' name with rfl | hNe
    · rw [hEntry, Option.some_inj] at hOld
      subst hOld
      have hCount := hRefs g
      have hLeft := hCounted rfl
      omega
    · have hOther : g' ≠ g := by
        rintro rfl
        exact hNe (h.distinct _ _ _ hOld hEntry)
      simpa [State.deregister, Function.update_of_ne hOther] using h.needed name' g' hOld
  · apply h.locked_idle hc rfl rfl
    intro g'
    rcases eq_or_ne g' g with rfl | hNe
    · simp [State.deregister]
    · simp [State.deregister, Function.update_of_ne hNe]

theorem advance (h : Inv s) (hc : s.callers[i]? = some c) {t : State} (hStep : s.advance i c = some t) : Inv t := by
  obtain ⟨name, pos⟩ := c
  cases pos with
  | arrived =>
    cases hStep
    unfold State.register
    split
    · rename_i hEntry
      exact h.register_known hc hEntry
    · rename_i hEntry
      exact h.register_new hc hEntry
  | waiting g =>
    simp only [State.advance, State.lock] at hStep
    split at hStep
    · cases hStep
    rename_i hFree
    cases hStep
    apply h.relock (d := ⟨name, .holding g⟩) (b := true) hc rfl rfl rfl
    rw [holdsAt_none rfl, holdsAt_toNat rfl, (Bool.not_eq_true _).mp hFree]
    simp
  | holding g =>
    cases hStep
    apply h.relock (d := ⟨name, .unlocked g⟩) (b := false) hc rfl rfl rfl
    rw [holdsAt_toNat rfl, holdsAt_none rfl, h.locked_of_holds (List.mem_of_getElem? hc) rfl]
    simp
  | unlocked g =>
    cases hStep
    exact h.deregister hc
  | done => cases hStep

theorem step (h : Inv s) {a : Action} {t : State} (hStep : s.step a = some t) : Inv t := by
  cases a with
  | call name =>
    cases hStep
    exact h.call name
  | advance i =>
    obtain ⟨c, hc, hAdvance⟩ := Option.bind_eq_some_iff.mp hStep
    exact h.advance hc hAdvance

theorem gate_unique (h : Inv s) {d : Caller} (hc : c ∈ s.callers) (hd : d ∈ s.callers) (hName : c.name = d.name)
    {g' : GateId} (hGate : c.gate = some g) (hGate' : d.gate = some g') : g = g' := by
  have hEntry := h.mapped c hc g hGate
  rw [hName, h.mapped d hd g' hGate', Option.some_inj] at hEntry
  exact hEntry.symm

theorem exclusive (h : Inv s) : Exclusive Caller.locks s.callers := by
  intro i j c d name hc hd hLock hLock'
  obtain ⟨rfl, g, hHolds⟩ := Caller.mem_locks.mp hLock
  obtain ⟨hName, g', hHolds'⟩ := Caller.mem_locks.mp hLock'
  have hSame : g = g' := h.gate_unique (List.mem_of_getElem? hc) (List.mem_of_getElem? hd) hName.symm
    (Caller.gate_of_holds hHolds) (Caller.gate_of_holds hHolds')
  subst hSame
  by_contra hNe
  have hTwo : 2 ≤ s.callers.countP (holdsAt g) :=
    two_le_countP hc hd hNe (decide_eq_true hHolds) (decide_eq_true hHolds')
  have hOne := Bool.toNat_le (s.heap g).locked
  rw [h.locked g] at hTwo
  omega

/-- The mutex of a caller's gate is free when nobody holds the gate of its name. -/
theorem unlocked_iff (h : Inv s) (hc : c ∈ s.callers) (hGate : c.gate = some g) :
    (s.heap g).locked = false ↔ Free Caller.locks s.callers c.name := by
  constructor
  · intro hFree d hd hLock
    obtain ⟨hName, g', hHolds⟩ := Caller.mem_locks.mp hLock
    have hSame := h.gate_unique hc hd hName.symm hGate (Caller.gate_of_holds hHolds)
    rw [hSame, h.locked_of_holds hd hHolds] at hFree
    cases hFree
  · intro hFree
    rw [← Bool.toNat_eq_zero, ← h.locked, List.countP_eq_zero]
    intro d hd hAt
    have hHolds : d.holds = some g := of_decide_eq_true hAt
    have hName : d.name = c.name := h.distinct _ _ g (h.mapped d hd g (Caller.gate_of_holds hHolds)) (h.mapped c hc g hGate)
    exact hFree d hd (Caller.mem_locks.mpr ⟨hName, g, hHolds⟩)

end Inv

theorem gate_is_lock_and_does_not_leak (actions : List Action) :
    Always State.step (fun s =>
      (∀ (i j : Nat) (name : Name) (g g' : GateId), s.callers[i]? = some ⟨name, .holding g⟩ →
        s.callers[j]? = some ⟨name, .holding g'⟩ → i = j) ∧
      (∀ c ∈ s.callers, ∀ d ∈ s.callers, c.name = d.name → ∀ g g', c.gate = some g → d.gate = some g' → g = g') ∧
      (∀ g, (s.heap g).refs = s.callers.countP (registeredAt g)) ∧
      (∀ name, (∀ c ∈ s.callers, c.name = name → c.gate = none) → s.gates name = none)) start actions := by
  have hInv : Always State.step Inv start actions :=
    always_of_invariant (fun _ _ _ h hStep => h.step hStep) start_inv actions
  refine hInv.mono ?_
  intro s h
  refine ⟨?_, ?_, h.refs, fun name hNone => h.no_entry hNone⟩
  · intro i j name g g' hi hj
    exact h.exclusive hi hj (List.mem_singleton_self name) (List.mem_singleton_self name)
  · intro c hc d hd hName g g' hGate hGate'
    exact h.gate_unique hc hd hName hGate hGate'

/-! ## The lock they implement -/

inductive Phase where
  | arrived
  | waiting
  | holding
  | unlocked
  | done
deriving DecidableEq, Repr

def Position.phase : Position → Phase
  | .arrived => .arrived
  | .waiting _ => .waiting
  | .holding _ => .holding
  | .unlocked _ => .unlocked
  | .done => .done

def heldNames (c : Name × Phase) : List Name := if c.2 = .holding then [c.1] else []

/-- Callers of locks that are there for every name. -/
def lockStep (callers : List (Name × Phase)) : Action → Option (List (Name × Phase))
  | .call name => some (callers ++ [(name, .arrived)])
  | .advance i =>
    (callers[i]?).bind fun c =>
      match c.2 with
      | .arrived => some (callers.set i (c.1, .waiting))
      | .waiting => if Free heldNames callers c.1 then some (callers.set i (c.1, .holding)) else none
      | .holding => some (callers.set i (c.1, .unlocked))
      | .unlocked => some (callers.set i (c.1, .done))
      | .done => none

def Caller.view (c : Caller) : Name × Phase := (c.name, c.pos.phase)

def State.view (s : State) : List (Name × Phase) := s.callers.map Caller.view

theorem heldNames_view (c : Caller) : heldNames c.view = c.locks := by
  obtain ⟨name, pos⟩ := c
  cases pos <;> rfl

theorem free_view {callers : List Caller} : Free heldNames (callers.map Caller.view) name ↔ Free Caller.locks callers name := by
  simp only [Free, List.forall_mem_map, heldNames_view]

/-- The gates do what the locks do, and wait when these do. -/
theorem step_view (h : Inv s) (a : Action) : (s.step a).map State.view = lockStep s.view a := by
  cases a with
  | call name => simp [State.step, State.view, lockStep, Caller.view, Position.phase]
  | advance i =>
    simp only [State.step, lockStep, State.view, List.getElem?_map]
    cases hc : s.callers[i]? with
    | none => rfl
    | some c =>
      obtain ⟨name, pos⟩ := c
      simp only [Option.bind_some, Option.map_some]
      cases pos with
      | arrived =>
        simp only [State.advance, State.register]
        split <;> simp [State.view, List.map_set, Caller.view, Position.phase]
      | waiting g =>
        have hLocked : (s.heap g).locked = false ↔ Free heldNames (s.callers.map Caller.view) name :=
          (h.unlocked_iff (List.mem_of_getElem? hc) rfl).trans free_view.symm
        simp only [State.advance, State.lock, Caller.view, Position.phase]
        by_cases hFree : (s.heap g).locked = false
        · refine Eq.trans ?_ (if_pos (hLocked.mp hFree)).symm
          simp [hFree, State.view, List.map_set, Caller.view, Position.phase]
        · refine Eq.trans ?_ (if_neg (fun hHeld => hFree (hLocked.mpr hHeld))).symm
          simp [hFree]
      | holding g => simp [State.advance, State.unlock, State.view, List.map_set, Caller.view, Position.phase]
      | unlocked g => simp [State.advance, State.deregister, State.view, List.map_set, Caller.view, Position.phase]
      | done => rfl

theorem run_view (h : Inv s) (actions : List Action) :
    (run State.step s actions).map State.view = run lockStep s.view actions := by
  induction actions generalizing s with
  | nil => rfl
  | cons a rest ih =>
    simp only [run, ← step_view h a, Option.map_bind, Option.bind_map]
    apply Option.bind_congr
    intro t ht
    exact ih (h.step ht)

end QuicSql.Enroll.Gates
