import Mathlib.Data.Finmap

/-!
# Counting the entries of a finite map

How many keys carry a value of some kind, and how that number moves when a key
is added or removed. A resource counter kept beside a map is right exactly when
it follows these equations.
-/

namespace QuicSql.Lib

universe u v

variable {κ : Type u} {β : Type v} [DecidableEq κ]

def tally (m : Finmap (fun _ : κ => β)) (p : β → Bool) : Nat :=
  (m.keys.filter (fun k => (m.lookup k).any p)).card

@[simp] theorem tally_empty (p : β → Bool) : tally (∅ : Finmap (fun _ : κ => β)) p = 0 := by
  simp [tally]

theorem tally_congr {m : Finmap (fun _ : κ => β)} {p q : β → Bool}
    (h : ∀ k v, m.lookup k = some v → p v = q v) : tally m p = tally m q := by
  unfold tally
  congr 1
  apply Finset.filter_congr
  intro k _
  cases hk : m.lookup k with
  | none => simp
  | some v => simp [h k v hk]

theorem erase_of_lookup_none {m : Finmap (fun _ : κ => β)} {k : κ} (h : m.lookup k = none) : m.erase k = m := by
  apply Finmap.ext_lookup
  intro k'
  by_cases hEq : k' = k
  · subst hEq
    rw [Finmap.lookup_erase, h]
  · rw [Finmap.lookup_erase_ne hEq]

theorem of_lookup_erase {m : Finmap (fun _ : κ => β)} {k k' : κ} {v : β} (h : (m.erase k).lookup k' = some v) :
    k' ≠ k ∧ m.lookup k' = some v := by
  have hNe : k' ≠ k := by
    rintro rfl
    rw [Finmap.lookup_erase] at h
    cases h
  rw [Finmap.lookup_erase_ne hNe] at h
  exact ⟨hNe, h⟩

theorem tally_insert {m : Finmap (fun _ : κ => β)} {k : κ} (h : m.lookup k = none) (v : β)
    (p : β → Bool) : tally (m.insert k v) p = tally m p + (p v).toNat := by
  have hNew : k ∉ m.keys := fun hk => Finmap.lookup_eq_none.mp h (Finmap.mem_keys.mp hk)
  have hKeys : (m.insert k v).keys = insert k m.keys := by
    ext k'
    simp [Finmap.mem_keys, Finmap.mem_insert]
  have hRest : m.keys.filter (fun k' => ((m.insert k v).lookup k').any p) =
      m.keys.filter (fun k' => (m.lookup k').any p) := by
    apply Finset.filter_congr
    intro k' hk'
    have hNe : k' ≠ k := fun hEq => hNew (hEq ▸ hk')
    rw [Finmap.lookup_insert_of_ne m hNe]
  unfold tally
  rw [hKeys, Finset.filter_insert, hRest]
  cases hp : p v with
  | false => simp [Finmap.lookup_insert, hp]
  | true =>
    simp only [Finmap.lookup_insert, Option.any_some, hp, if_true, Bool.toNat_true]
    exact Finset.card_insert_of_notMem (by simp [hNew])

theorem tally_erase {m : Finmap (fun _ : κ => β)} {k : κ} {v : β} (h : m.lookup k = some v)
    (p : β → Bool) : tally (m.erase k) p + (p v).toNat = tally m p := by
  have hSame : (m.erase k).insert k v = m := by
    apply Finmap.ext_lookup
    intro k'
    by_cases hEq : k' = k
    · subst hEq
      rw [Finmap.lookup_insert, h]
    · rw [Finmap.lookup_insert_of_ne _ hEq, Finmap.lookup_erase_ne hEq]
  calc tally (m.erase k) p + (p v).toNat
      = tally ((m.erase k).insert k v) p := (tally_insert (Finmap.lookup_erase k m) v p).symm
    _ = tally m p := by rw [hSame]

/-- A map that lacks no entry of the kind counts as many. -/
theorem tally_le_of_subset {m n : Finmap (fun _ : κ => β)} {p : β → Bool}
    (h : ∀ k v, m.lookup k = some v → p v = true → n.lookup k = some v) : tally m p ≤ tally n p := by
  refine Finset.card_le_card fun k hk => ?_
  obtain ⟨hKey, hAny⟩ := Finset.mem_filter.mp hk
  obtain ⟨v, hLookup⟩ := Finmap.mem_iff.mp (Finmap.mem_keys.mp hKey)
  rw [hLookup, Option.any_some] at hAny
  have hMore := h k v hLookup hAny
  refine Finset.mem_filter.mpr ⟨Finmap.mem_keys.mpr (Finmap.mem_iff.mpr ⟨v, hMore⟩), ?_⟩
  rw [hMore]
  exact hAny

theorem tally_insert_erase (m : Finmap (fun _ : κ => β)) (k : κ) (v : β) (p : β → Bool) :
    tally (m.insert k v) p = tally (m.erase k) p + (p v).toNat := by
  have hSame : (m.erase k).insert k v = m.insert k v := by
    apply Finmap.ext_lookup
    intro k'
    by_cases hEq : k' = k
    · subst hEq
      rw [Finmap.lookup_insert, Finmap.lookup_insert]
    · rw [Finmap.lookup_insert_of_ne _ hEq, Finmap.lookup_erase_ne hEq, Finmap.lookup_insert_of_ne _ hEq]
  rw [← hSame, tally_insert (Finmap.lookup_erase k m)]

theorem tally_pos {m : Finmap (fun _ : κ => β)} {k : κ} {v : β} (h : m.lookup k = some v)
    {p : β → Bool} (hp : p v = true) : 0 < tally m p := by
  have hErase := tally_erase h p
  rw [hp, Bool.toNat_true] at hErase
  omega

/-! ## Dropping entries -/

def retain (p : β → Bool) (m : Finmap (fun _ : κ => β)) : Finmap (fun _ : κ => β) where
  entries := m.entries.filter (fun x => p x.2)
  nodupKeys := by
    obtain ⟨entries, hNodup⟩ := m
    induction entries using Quotient.inductionOn with
    | h l =>
      simp only [Multiset.quot_mk_to_coe, Multiset.filter_coe, Multiset.coe_nodupKeys]
      exact List.NodupKeys.sublist List.filter_sublist hNodup

theorem lookup_retain (p : β → Bool) (m : Finmap (fun _ : κ => β)) (k : κ) :
    (retain p m).lookup k = (m.lookup k).filter p := by
  refine Option.ext fun v => ?_
  rw [← Option.mem_def, Finmap.mem_lookup_iff, Option.filter_eq_some_iff, ← Option.mem_def, Finmap.mem_lookup_iff]
  exact Multiset.mem_filter

end QuicSql.Lib
