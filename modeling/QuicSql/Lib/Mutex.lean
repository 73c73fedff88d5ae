import QuicSql.Lib.Pool

/-!
# Locks held by calls

Which locks a call holds can be read off its position. A step moves one call on: it keeps
or gives back what the call held, and takes what nobody holds.
-/

namespace QuicSql.Lib

universe u v

variable {κ : Type u} {ℓ : Type v} (locks : κ → List ℓ)

def Exclusive (calls : List κ) : Prop :=
  ∀ ⦃i j : Nat⦄ ⦃c d : κ⦄ ⦃l : ℓ⦄, calls[i]? = some c → calls[j]? = some d → l ∈ locks c → l ∈ locks d → i = j

def Free (calls : List κ) (l : ℓ) : Prop := ∀ c ∈ calls, l ∉ locks c

instance [DecidableEq ℓ] (calls : List κ) (l : ℓ) : Decidable (Free locks calls l) :=
  inferInstanceAs (Decidable (∀ c ∈ calls, l ∉ locks c))

variable {locks} {calls : List κ}

/-- Every call but the one that moves stays where it is. -/
theorem mem_set_of_mem {i : Nat} {c d e : κ} (hc : calls[i]? = some c) (he : e ∈ calls) : e = c ∨ e ∈ calls.set i d := by
  obtain ⟨j, hj⟩ := List.getElem?_of_mem he
  rcases Decidable.em (i = j) with rfl | hNe
  · exact .inl (Option.some.inj (hj.symm.trans hc))
  · exact .inr (List.mem_of_getElem? ((List.getElem?_set_ne hNe).trans hj))

theorem exclusive_nil : Exclusive locks [] := by
  intro i j c d l hc
  cases hc

theorem Free.set {l : ℓ} (h : Free locks calls l) {i : Nat} {c d : κ} (hc : calls[i]? = some c)
    (hKept : l ∈ locks d → l ∈ locks c) : Free locks (calls.set i d) l := by
  intro e he hIn
  rcases List.mem_or_eq_of_mem_set he with hOld | rfl
  · exact h e hOld hIn
  · exact h c (List.mem_of_getElem? hc) (hKept hIn)

namespace Exclusive

theorem free_set (h : Exclusive locks calls) {i : Nat} {c d : κ} {l : ℓ} (hc : calls[i]? = some c) (hl : l ∈ locks c)
    (hd : l ∉ locks d) : Free locks (calls.set i d) l := by
  intro e he hIn
  obtain ⟨j, hj⟩ := List.getElem?_of_mem he
  rcases getElem?_set_cases hj with ⟨-, rfl⟩ | ⟨hNe, hOld⟩
  · exact hd hIn
  · exact hNe (h hc hOld hl hIn)

theorem append_of_free (h : Exclusive locks calls) {c : κ} (hFree : ∀ l ∈ locks c, Free locks calls l) :
    Exclusive locks (calls ++ [c]) := by
  intro i j d e l hd he hld hle
  rcases getElem?_append_cases hd with ⟨hi, rfl⟩ | ⟨-, hdOld⟩
  · rcases getElem?_append_cases he with ⟨hj, -⟩ | ⟨-, heOld⟩
    · rw [hi, hj]
    · exact absurd hle (hFree l hld e (List.mem_of_getElem? heOld))
  · rcases getElem?_append_cases he with ⟨-, rfl⟩ | ⟨-, heOld⟩
    · exact absurd hld (hFree l hle d (List.mem_of_getElem? hdOld))
    · exact h hdOld heOld hld hle

theorem append (h : Exclusive locks calls) {c : κ} (hNone : locks c = []) : Exclusive locks (calls ++ [c]) := by
  refine h.append_of_free fun l hl => ?_
  rw [hNone] at hl
  cases hl

theorem set (h : Exclusive locks calls) {i : Nat} {c d : κ} (hc : calls[i]? = some c)
    (hTaken : ∀ l ∈ locks d, l ∈ locks c ∨ Free locks calls l) : Exclusive locks (calls.set i d) := by
  have hMoved : ∀ {j : Nat} {e : κ} {l : ℓ}, i ≠ j → calls[j]? = some e → l ∈ locks d → l ∉ locks e := by
    intro j e l hj he hl hle
    rcases hTaken l hl with hHeld | hFree
    · exact hj (h hc he hHeld hle)
    · exact hFree e (List.mem_of_getElem? he) hle
  intro j k e f l he hf hle hlf
  rcases getElem?_set_cases he with ⟨rfl, rfl⟩ | ⟨hj, heOld⟩
  · rcases getElem?_set_cases hf with ⟨rfl, rfl⟩ | ⟨hk, hfOld⟩
    · rfl
    · exact absurd hlf (hMoved hk hfOld hle)
  · rcases getElem?_set_cases hf with ⟨rfl, rfl⟩ | ⟨hk, hfOld⟩
    · exact absurd hle (hMoved hj heOld hlf)
    · exact h heOld hfOld hle hlf

end Exclusive

end QuicSql.Lib
