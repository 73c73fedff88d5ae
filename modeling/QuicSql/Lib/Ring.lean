import Mathlib.Data.Nat.ModEq

/-!
# A circular buffer beside its history

Entry `k` of a growing sequence is written to slot `k` modulo the length of the
buffer. The buffer then holds the last entries of the sequence, as many as it has
slots, and nothing else but what it was filled with at the start.
-/

namespace QuicSql.Lib.Ring

universe u

variable {α : Type u}

structure Holds (blank : α) (ring history : List α) : Prop where
  recent : ∀ k, k < history.length → history.length ≤ k + ring.length →
    ring[k % ring.length]? = history[k]?
  only : ∀ (i : Nat) (x : α), ring[i]? = some x → x = blank ∨
    ∃ k, k < history.length ∧ history.length ≤ k + ring.length ∧ k % ring.length = i ∧ history[k]? = some x

theorem holds_replicate (blank : α) (n : Nat) : Holds blank (List.replicate n blank) [] where
  recent := by
    intro k hk
    cases hk
  only := by
    intro i x hx
    exact .inl (List.eq_of_mem_replicate (List.mem_of_getElem? hx))

theorem mod_ne_of_lt {k n m : Nat} (hLt : k < n) (hNear : n < k + m) : k % m ≠ n % m := by
  intro hSame
  have hDvd : m ∣ n - k := (Nat.modEq_iff_dvd' (Nat.le_of_lt hLt)).mp hSame
  have hLe := Nat.le_of_dvd (Nat.sub_pos_of_lt hLt) hDvd
  omega

theorem Holds.push {blank : α} {ring history : List α} (h : Holds blank ring history)
    (hPos : 0 < ring.length) (x : α) :
    Holds blank (ring.set (history.length % ring.length) x) (history ++ [x]) where
  recent := by
    intro k hk hNear
    rw [List.length_append, List.length_singleton] at hk hNear
    rw [List.length_set] at hNear ⊢
    rcases Nat.lt_or_eq_of_le (Nat.le_of_lt_succ hk) with hOld | rfl
    · rw [List.getElem?_set_ne (mod_ne_of_lt hOld (by omega)).symm, List.getElem?_append_left hOld]
      exact h.recent k hOld (by omega)
    · rw [List.getElem?_set_self (Nat.mod_lt _ hPos), List.getElem?_concat_length]
  only := by
    intro i y hy
    rw [List.length_append, List.length_singleton, List.length_set]
    rw [List.getElem?_set] at hy
    split at hy
    · rename_i hSlot
      rw [if_pos (Nat.mod_lt _ hPos)] at hy
      cases hy
      exact .inr ⟨history.length, by omega, by omega, hSlot, List.getElem?_concat_length⟩
    · rename_i hSlot
      rcases h.only i y hy with hBlank | ⟨k, hk, hNear, hMod, hEntry⟩
      · exact .inl hBlank
      · -- An entry that falls out of the window sat in the slot just written.
        have hStays : history.length + 1 ≤ k + ring.length := by
          rcases Nat.lt_or_eq_of_le hNear with hLt | hEq
          · exact hLt
          · exact absurd (by rw [hEq, Nat.add_mod_right, hMod]) hSlot
        exact .inr ⟨k, by omega, hStays, hMod, by rw [List.getElem?_append_left hk]; exact hEntry⟩

end QuicSql.Lib.Ring
