import Mathlib.Logic.Function.Basic

/-!
# Custody of handles

Handles are made one after another. Each is kept at a place (a field, a local variable, the
argument of a goroutine), goes from place to place, and is closed at the place where it is.
Custody is sound when no handle is at two places and none has been lost: a handle that was
made is at a place or has been closed once.
-/

namespace QuicSql.Lib

universe u v

structure Custody (α : Type u) where
  held : α → Option Nat
  next : Nat
  closed : Nat → Nat

namespace Custody

variable {α : Type u} {c : Custody α} {a b p : α} {h : Nat}

def empty : Custody α := ⟨fun _ => none, 0, fun _ => 0⟩

structure Sound (c : Custody α) : Prop where
  one : ∀ {a b : α} {h : Nat}, c.held a = some h → c.held b = some h → a = b
  made : ∀ {a : α} {h : Nat}, c.held a = some h → h < c.next
  unclosed : ∀ {a : α} {h : Nat}, c.held a = some h → c.closed h = 0
  kept : ∀ {h : Nat}, h < c.next → c.closed h = 0 → ∃ a, c.held a = some h
  once : ∀ h, c.closed h ≤ 1
  fresh : ∀ {h : Nat}, c.next ≤ h → c.closed h = 0

theorem sound_empty : Sound (empty : Custody α) where
  one h := by cases h
  made h := by cases h
  unclosed h := by cases h
  kept h := absurd h (Nat.not_lt_zero _)
  once _ := Nat.zero_le _
  fresh _ := rfl

variable [DecidableEq α]

def create (c : Custody α) (a : α) : Custody α :=
  { c with held := Function.update c.held a (some c.next), next := c.next + 1 }

/-- What was at the second place before is overwritten. -/
def move (c : Custody α) (a b : α) : Custody α :=
  { c with held := Function.update (Function.update c.held b (c.held a)) a none }

def close (c : Custody α) (a : α) : Custody α :=
  match c.held a with
  | none => c
  | some h =>
    { c with
      held := Function.update c.held a none
      closed := Function.update c.closed h (c.closed h + 1) }

/-! ## Making -/

@[simp] theorem create_next (c : Custody α) (a : α) : (c.create a).next = c.next + 1 := rfl

@[simp] theorem create_closed (c : Custody α) (a : α) : (c.create a).closed = c.closed := rfl

theorem held_create_self (c : Custody α) (a : α) : (c.create a).held a = some c.next :=
  Function.update_self _ _ _

theorem held_create_of_ne (h : p ≠ a) : (c.create a).held p = c.held p := Function.update_of_ne h _ _

theorem held_create_cases (hHeld : (c.create a).held p = some h) :
    (p = a ∧ h = c.next) ∨ (p ≠ a ∧ c.held p = some h) := by
  rcases Decidable.em (p = a) with rfl | hNe
  · rw [held_create_self] at hHeld
    exact .inl ⟨rfl, (Option.some.inj hHeld).symm⟩
  · rw [held_create_of_ne hNe] at hHeld
    exact .inr ⟨hNe, hHeld⟩

theorem Sound.create (hc : Sound c) (hEmpty : c.held a = none) : Sound (c.create a) where
  one ha hb := by
    rcases held_create_cases ha with ⟨rfl, rfl⟩ | ⟨_, hOld⟩ <;> rcases held_create_cases hb with ⟨rfl, hNew⟩ | ⟨_, hOld'⟩
    · rfl
    · exact absurd (hc.made hOld') (Nat.lt_irrefl _)
    · exact absurd (hc.made hOld) (by omega)
    · exact hc.one hOld hOld'
  made hp := by
    rcases held_create_cases hp with ⟨_, rfl⟩ | ⟨_, hp⟩
    · exact Nat.lt_succ_self _
    · exact Nat.lt_succ_of_lt (hc.made hp)
  unclosed hp := by
    rcases held_create_cases hp with ⟨_, rfl⟩ | ⟨_, hp⟩
    · exact hc.fresh (Nat.le_refl _)
    · exact hc.unclosed hp
  kept {h} hLt hOpen := by
    rcases Nat.lt_succ_iff_lt_or_eq.mp hLt with hOld | rfl
    · obtain ⟨p, hp⟩ := hc.kept hOld hOpen
      refine ⟨p, ?_⟩
      rw [held_create_of_ne, hp]
      rintro rfl
      cases hEmpty.symm.trans hp
    · exact ⟨a, held_create_self c a⟩
  once := hc.once
  fresh hLe := hc.fresh (Nat.le_of_succ_le hLe)

/-! ## Moving -/

@[simp] theorem move_next (c : Custody α) (a b : α) : (c.move a b).next = c.next := rfl

@[simp] theorem move_closed (c : Custody α) (a b : α) : (c.move a b).closed = c.closed := rfl

theorem held_move_from (c : Custody α) (a b : α) : (c.move a b).held a = none := Function.update_self _ _ _

theorem held_move_to (hNe : b ≠ a) : (c.move a b).held b = c.held a := by
  change Function.update (Function.update c.held b (c.held a)) a none b = c.held a
  rw [Function.update_of_ne hNe, Function.update_self]

theorem held_move_of_ne (ha : p ≠ a) (hb : p ≠ b) : (c.move a b).held p = c.held p := by
  change Function.update (Function.update c.held b (c.held a)) a none p = c.held p
  rw [Function.update_of_ne ha, Function.update_of_ne hb]

theorem held_move_cases (hHeld : (c.move a b).held p = some h) :
    (p = b ∧ c.held a = some h) ∨ (p ≠ a ∧ p ≠ b ∧ c.held p = some h) := by
  rcases Decidable.em (p = a) with rfl | ha
  · cases (held_move_from c p b).symm.trans hHeld
  · rcases Decidable.em (p = b) with rfl | hb
    · rw [held_move_to ha] at hHeld
      exact .inl ⟨rfl, hHeld⟩
    · rw [held_move_of_ne ha hb] at hHeld
      exact .inr ⟨ha, hb, hHeld⟩

theorem Sound.move (hc : Sound c) (hNe : b ≠ a) (hEmpty : c.held b = none) : Sound (c.move a b) where
  one hp hq := by
    rcases held_move_cases hp with ⟨rfl, hOld⟩ | ⟨hpa, _, hOld⟩ <;>
      rcases held_move_cases hq with ⟨rfl, hOld'⟩ | ⟨hqa, _, hOld'⟩
    · rfl
    · exact absurd (hc.one hOld' hOld) hqa
    · exact absurd (hc.one hOld hOld') hpa
    · exact hc.one hOld hOld'
  made hp := by
    rcases held_move_cases hp with ⟨_, hp⟩ | ⟨_, _, hp⟩ <;> exact hc.made hp
  unclosed hp := by
    rcases held_move_cases hp with ⟨_, hp⟩ | ⟨_, _, hp⟩ <;> exact hc.unclosed hp
  kept hLt hOpen := by
    obtain ⟨p, hp⟩ := hc.kept hLt hOpen
    rcases Decidable.em (p = a) with rfl | ha
    · exact ⟨b, (held_move_to hNe).trans hp⟩
    · refine ⟨p, ?_⟩
      rw [held_move_of_ne ha, hp]
      rintro rfl
      cases hEmpty.symm.trans hp
  once := hc.once
  fresh := hc.fresh

/-! ## Closing -/

theorem close_of_none (hEmpty : c.held a = none) : c.close a = c := by
  rw [close, hEmpty]

theorem close_of_some (hHeld : c.held a = some h) :
    c.close a =
      { c with
        held := Function.update c.held a none
        closed := Function.update c.closed h (c.closed h + 1) } := by
  rw [close, hHeld]

@[simp] theorem close_next (c : Custody α) (a : α) : (c.close a).next = c.next := by
  unfold close
  split <;> rfl

theorem held_close_self (c : Custody α) (a : α) : (c.close a).held a = none := by
  cases hHeld : c.held a with
  | none => rw [close_of_none hHeld, hHeld]
  | some h =>
    rw [close_of_some hHeld]
    exact Function.update_self _ _ _

theorem held_close_of_ne (hNe : p ≠ a) : (c.close a).held p = c.held p := by
  cases hHeld : c.held a with
  | none => rw [close_of_none hHeld]
  | some h =>
    rw [close_of_some hHeld]
    exact Function.update_of_ne hNe _ _

theorem held_close_cases (hHeld : (c.close a).held p = some h) : p ≠ a ∧ c.held p = some h := by
  have hNe : p ≠ a := by
    rintro rfl
    cases (held_close_self c p).symm.trans hHeld
  exact ⟨hNe, (held_close_of_ne hNe).symm.trans hHeld⟩

theorem closed_close_of_ne (hNe : c.held a ≠ some h) : (c.close a).closed h = c.closed h := by
  cases hHeld : c.held a with
  | none => rw [close_of_none hHeld]
  | some h' =>
    rw [close_of_some hHeld]
    refine Function.update_of_ne ?_ _ _
    rintro rfl
    exact hNe hHeld

theorem closed_close_self (hHeld : c.held a = some h) : (c.close a).closed h = c.closed h + 1 := by
  rw [close_of_some hHeld]
  exact Function.update_self _ _ _

theorem Sound.close (hc : Sound c) (a : α) : Sound (c.close a) where
  one hp hq := hc.one (held_close_cases hp).2 (held_close_cases hq).2
  made hp := by
    rw [close_next]
    exact hc.made (held_close_cases hp).2
  unclosed hp := by
    obtain ⟨hNe, hp⟩ := held_close_cases hp
    rw [closed_close_of_ne (fun ha => hNe (hc.one hp ha))]
    exact hc.unclosed hp
  kept {h} hLt hOpen := by
    rw [close_next] at hLt
    have hNot : c.held a ≠ some h := by
      intro ha
      rw [closed_close_self ha] at hOpen
      cases hOpen
    rw [closed_close_of_ne hNot] at hOpen
    obtain ⟨p, hp⟩ := hc.kept hLt hOpen
    refine ⟨p, ?_⟩
    rw [held_close_of_ne, hp]
    rintro rfl
    exact hNot hp
  once h := by
    rcases Decidable.em (c.held a = some h) with ha | hNot
    · exact Nat.le_of_eq (by rw [closed_close_self ha, hc.unclosed ha])
    · rw [closed_close_of_ne hNot]
      exact hc.once h
  fresh {h} hLe := by
    rw [close_next] at hLe
    rw [closed_close_of_ne]
    · exact hc.fresh hLe
    · intro ha
      exact absurd (hc.made ha) (Nat.not_lt.mpr hLe)

/-! ## Moving several handles at once -/

section MoveAll

variable {β : Type v} (f g : β → α)

def moveAll (c : Custody α) (l : List β) : Custody α := l.foldl (fun c r => c.move (f r) (g r)) c

variable {f g} {l : List β}

@[simp] theorem moveAll_next (l : List β) : (c.moveAll f g l).next = c.next := by
  induction l generalizing c with
  | nil => rfl
  | cons r rest ih => exact ih

@[simp] theorem moveAll_closed (l : List β) : (c.moveAll f g l).closed = c.closed := by
  induction l generalizing c with
  | nil => rfl
  | cons r rest ih => exact ih

/-- What is at a place afterwards stayed there or came from the place it belongs to. -/
theorem held_moveAll_cases (hApart : ∀ r s, f r ≠ g s) (hHeld : (c.moveAll f g l).held p = some h) :
    (∃ r ∈ l, p = g r ∧ c.held (f r) = some h) ∨ ((∀ r ∈ l, p ≠ f r) ∧ c.held p = some h) := by
  induction l generalizing c with
  | nil => exact .inr ⟨fun _ hr => absurd hr List.not_mem_nil, hHeld⟩
  | cons r rest ih =>
    rcases ih hHeld with ⟨s, hs, rfl, hOld⟩ | ⟨hOff, hOld⟩
    · rcases held_move_cases hOld with ⟨hEq, _⟩ | ⟨_, _, hOld⟩
      · exact absurd hEq (hApart s r)
      · exact .inl ⟨s, List.mem_cons_of_mem _ hs, rfl, hOld⟩
    · rcases held_move_cases hOld with ⟨rfl, hFrom⟩ | ⟨hNe, _, hOld⟩
      · exact .inl ⟨r, List.mem_cons_self, rfl, hFrom⟩
      · refine .inr ⟨fun s hs => ?_, hOld⟩
        rcases List.mem_cons.mp hs with rfl | hs
        · exact hNe
        · exact hOff s hs

theorem Sound.moveAll (hc : Sound c) (hApart : ∀ r s, f r ≠ g s) (hDistinct : (l.map g).Nodup)
    (hEmpty : ∀ r ∈ l, c.held (g r) = none) : Sound (c.moveAll f g l) := by
  induction l generalizing c with
  | nil => exact hc
  | cons r rest ih =>
    rw [List.map_cons, List.nodup_cons] at hDistinct
    refine ih (hc.move (hApart r r).symm (hEmpty r List.mem_cons_self)) hDistinct.2 ?_
    intro s hs
    rw [held_move_of_ne (hApart r s).symm, hEmpty s (List.mem_cons_of_mem _ hs)]
    intro hEq
    exact hDistinct.1 (hEq ▸ List.mem_map_of_mem hs)

end MoveAll

end Custody

end QuicSql.Lib
