import Mathlib.Data.List.Basic

/-!
# Runs of a partial step function

A component is a function from a state and an action to the next state; no
result means that the action cannot be taken there. Safety is stated on every
state met along a list of actions, and side conditions on the steps taken.
An action that is refused ends the run, so no statement below assumes that a
whole list is executable.
-/

namespace QuicSql.Lib

universe u v

variable {σ : Type u} {α : Type v} (step : σ → α → Option σ)

def run : σ → List α → Option σ
  | s, [] => some s
  | s, a :: rest => (step s a).bind (fun t => run t rest)

/-- The property holds now and in every state that the actions still reach. -/
def Always (P : σ → Prop) : σ → List α → Prop
  | s, [] => P s
  | s, a :: rest => P s ∧ ∀ t, step s a = some t → Always P t rest

/-- Every step that is taken satisfies the condition in the state before it. -/
def Guarded (C : σ → α → Prop) : σ → List α → Prop
  | _, [] => True
  | s, a :: rest => ∀ t, step s a = some t → C s a ∧ Guarded C t rest

variable {step}

@[simp] theorem run_nil (s : σ) : run step s [] = some s := rfl

instance decidableGuarded (C : σ → α → Prop) [∀ s a, Decidable (C s a)] :
    ∀ (s : σ) (actions : List α), Decidable (Guarded step C s actions)
  | _, [] => isTrue trivial
  | s, a :: rest =>
    match h : step s a with
    | none => isTrue (fun t ht => by cases h.symm.trans ht)
    | some t =>
      have := decidableGuarded C t rest
      decidable_of_iff (C s a ∧ Guarded step C t rest)
        ⟨fun hBoth u hu => by cases h.symm.trans hu; exact hBoth, fun hAll => hAll t h⟩

theorem Always.head {P : σ → Prop} {s : σ} {actions : List α}
    (h : Always step P s actions) : P s := by
  cases actions with
  | nil => exact h
  | cons a rest => exact h.1

theorem Always.mono {P Q : σ → Prop} (hPQ : ∀ s, P s → Q s) {s : σ} {actions : List α}
    (h : Always step P s actions) : Always step Q s actions := by
  induction actions generalizing s with
  | nil => exact hPQ s h
  | cons a rest ih => exact ⟨hPQ s h.1, fun t ht => ih (h.2 t ht)⟩

theorem Always.final {P : σ → Prop} {s t : σ} {actions : List α}
    (h : Always step P s actions) (hRun : run step s actions = some t) : P t := by
  induction actions generalizing s with
  | nil =>
    cases hRun
    exact h
  | cons a rest ih =>
    obtain ⟨u, hu, hRest⟩ := Option.bind_eq_some_iff.mp hRun
    exact ih (h.2 u hu) hRest

theorem always_of_guarded {I : σ → Prop} {C : σ → α → Prop}
    (hStep : ∀ s a t, I s → C s a → step s a = some t → I t)
    {s : σ} {actions : List α} (hInit : I s) (hGuard : Guarded step C s actions) :
    Always step I s actions := by
  induction actions generalizing s with
  | nil => exact hInit
  | cons a rest ih =>
    refine ⟨hInit, fun t ht => ?_⟩
    obtain ⟨hC, hRest⟩ := hGuard t ht
    exact ih (hStep s a t hInit hC ht) hRest

/-- The invariant rule: what holds at the start and survives a step holds throughout. -/
theorem always_of_invariant {I : σ → Prop} (hStep : ∀ s a t, I s → step s a = some t → I t)
    {s : σ} (hInit : I s) (actions : List α) : Always step I s actions := by
  induction actions generalizing s with
  | nil => exact hInit
  | cons a rest ih => exact ⟨hInit, fun t ht => ih (hStep s a t hInit ht)⟩

/-- A side condition is exact when leaving it makes the next state bad after a good one. -/
theorem guarded_of_always {I P : σ → Prop} {C : σ → α → Prop}
    (hStep : ∀ s a t, I s → step s a = some t → I t)
    (hExact : ∀ s a t, I s → P s → step s a = some t → P t → C s a)
    {s : σ} {actions : List α} (hInit : I s) (h : Always step P s actions) :
    Guarded step C s actions := by
  induction actions generalizing s with
  | nil => trivial
  | cons a rest ih =>
    intro t ht
    exact ⟨hExact s a t hInit h.1 ht (h.2 t ht).head, ih (hStep s a t hInit ht) (h.2 t ht)⟩

end QuicSql.Lib
