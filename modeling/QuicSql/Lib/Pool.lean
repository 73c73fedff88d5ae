import Mathlib.Data.List.Basic

/-!
# A pool of concurrent calls

Calls in progress are kept in a list; a step of one call replaces its element.
The lemmas count the calls with a given property before and after such a
replacement.
-/

namespace QuicSql.Lib

universe u

variable {α : Type u} {p : α → Bool} {l : List α} {i : Nat} {a b c : α}

theorem countP_set_add (h : l[i]? = some a) :
    (l.set i b).countP p + (p a).toNat = l.countP p + (p b).toNat := by
  obtain ⟨hi, rfl⟩ := List.getElem?_eq_some_iff.mp h
  rw [List.countP_set hi]
  have hPos : p l[i] = true → 0 < l.countP p := fun hp =>
    List.countP_pos_iff.mpr ⟨l[i], List.getElem_mem hi, hp⟩
  cases hp : p l[i] <;> cases hb : p b <;> simp_all

theorem countP_set_le (h : l[i]? = some a) (hp : p b = true → p a = true) :
    (l.set i b).countP p ≤ l.countP p := by
  have hCount := countP_set_add (p := p) (b := b) h
  cases hb : p b with
  | false =>
    rw [hb, Bool.toNat_false] at hCount
    omega
  | true =>
    rw [hb, hp hb] at hCount
    omega

/-- The same for what the calls carry, item by item. -/
theorem count_flatMap_set_add {β : Type u} [BEq β] {f : α → List β} (h : l[i]? = some a) (x : β) :
    ((l.set i b).flatMap f).count x + (f a).count x = (l.flatMap f).count x + (f b).count x := by
  induction l generalizing i with
  | nil => simp at h
  | cons y rest ih =>
    cases i with
    | zero =>
      simp only [List.getElem?_cons_zero, Option.some.injEq] at h
      subst h
      simp only [List.set_cons_zero, List.flatMap_cons, List.count_append]
      omega
    | succ i =>
      have hRest := ih (by simpa using h)
      simp only [List.set_cons_succ, List.flatMap_cons, List.count_append]
      omega

def weight (f : α → Nat) (l : List α) : Nat := l.foldr (fun a n => f a + n) 0

theorem weight_append (f : α → Nat) (l l' : List α) : weight f (l ++ l') = weight f l + weight f l' := by
  induction l with
  | nil => exact (Nat.zero_add _).symm
  | cons y rest ih =>
    change f y + weight f (rest ++ l') = f y + weight f rest + weight f l'
    omega

theorem weight_set_add {f : α → Nat} (h : l[i]? = some a) :
    weight f (l.set i b) + f a = weight f l + f b := by
  induction l generalizing i with
  | nil => simp at h
  | cons y rest ih =>
    cases i with
    | zero =>
      simp only [List.getElem?_cons_zero, Option.some.injEq] at h
      subst h
      change f b + weight f rest + f y = f y + weight f rest + f b
      omega
    | succ i =>
      have hRest := ih (by simpa using h)
      change f y + weight f (rest.set i b) + f a = f y + weight f rest + f b
      omega

theorem count_flatMap_le_countP {β : Type u} [BEq β] {f : α → List β} {x : β}
    (h : ∀ a ∈ l, (f a).count x ≤ (p a).toNat) : (l.flatMap f).count x ≤ l.countP p := by
  induction l with
  | nil => exact Nat.le_refl _
  | cons y rest ih =>
    have hHead := h y List.mem_cons_self
    have hRest := ih fun a ha => h a (List.mem_cons_of_mem y ha)
    rw [List.flatMap_cons, List.count_append, List.countP_cons]
    cases hp : p y <;> simp only [hp, Bool.toNat_true, Bool.toNat_false] at hHead <;> simp <;> omega

theorem count_flatMap_update {β : Type u} [BEq β] {f g : α → List β} (hNodup : l.Nodup) (ha : a ∈ l)
    (hEmpty : f a = []) (hOther : ∀ y, y ≠ a → g y = f y) (x : β) :
    (l.flatMap g).count x = (l.flatMap f).count x + (g a).count x := by
  induction l with
  | nil => cases ha
  | cons y rest ih =>
    obtain ⟨hNotIn, hRest⟩ := List.nodup_cons.mp hNodup
    rw [List.flatMap_cons, List.flatMap_cons, List.count_append, List.count_append]
    rcases List.mem_cons.mp ha with rfl | ha
    · have hSame : rest.flatMap g = rest.flatMap f := List.flatMap_congr fun y hy =>
        hOther y fun hEq => hNotIn (hEq ▸ hy)
      rw [hSame, hEmpty, List.count_nil]
      omega
    · have hNe : y ≠ a := fun hEq => hNotIn (hEq ▸ ha)
      rw [hOther y hNe, ih hRest ha]
      omega

theorem countP_eraseIdx_add (h : l[i]? = some a) :
    (l.eraseIdx i).countP p + (p a).toNat = l.countP p := by
  induction l generalizing i with
  | nil => simp at h
  | cons x rest ih =>
    cases i with
    | zero =>
      simp only [List.getElem?_cons_zero, Option.some.injEq] at h
      subst h
      rw [List.eraseIdx_cons_zero, List.countP_cons]
      cases p x <;> rfl
    | succ i =>
      have hRest := ih (by simpa using h)
      rw [List.eraseIdx_cons_succ, List.countP_cons, List.countP_cons]
      omega

theorem mem_set_of_mem_ne (h : l[i]? = some a) (hc : c ∈ l) (hNe : c ≠ a) : c ∈ l.set i b := by
  obtain ⟨j, hj⟩ := List.mem_iff_getElem?.mp hc
  have hij : i ≠ j := by
    rintro rfl
    rw [h] at hj
    exact hNe (Option.some.inj hj).symm
  refine List.mem_iff_getElem?.mpr ⟨j, ?_⟩
  rw [List.getElem?_set_ne hij, hj]

theorem mem_set_self (h : l[i]? = some a) : b ∈ l.set i b :=
  List.mem_set (List.getElem?_eq_some_iff.mp h).1 b

theorem getElem?_set_cases {j : Nat} (h : (l.set i a)[j]? = some b) :
    (i = j ∧ b = a) ∨ (i ≠ j ∧ l[j]? = some b) := by
  by_cases hij : i = j
  · subst hij
    rw [List.getElem?_set_self'] at h
    obtain ⟨_, _, rfl⟩ := Option.map_eq_some_iff.mp h
    exact .inl ⟨rfl, rfl⟩
  · rw [List.getElem?_set_ne hij] at h
    exact .inr ⟨hij, h⟩

theorem getElem?_append_cases {j : Nat} (h : (l ++ [a])[j]? = some b) :
    (j = l.length ∧ b = a) ∨ (j < l.length ∧ l[j]? = some b) := by
  rcases Nat.lt_trichotomy j l.length with hLt | rfl | hGt
  · rw [List.getElem?_append_left hLt] at h
    exact .inr ⟨hLt, h⟩
  · exact .inl ⟨rfl, by simpa using h.symm⟩
  · rw [List.getElem?_eq_none (by simp; omega)] at h
    cases h

theorem getElem?_append_of_some {l' : List α} (h : l[i]? = some a) : (l ++ l')[i]? = some a :=
  (List.getElem?_append_left (List.getElem?_eq_some_iff.mp h).1).trans h

theorem getElem?_set_of_some (h : l[i]? = some a) : (l.set i b)[i]? = some b :=
  List.getElem?_set_self (List.getElem?_eq_some_iff.mp h).1

theorem forall_mem_set {Q : α → Prop} (hOld : ∀ c ∈ l, Q c) (hNew : Q b) :
    ∀ c ∈ l.set i b, Q c := by
  intro c hc
  rcases List.mem_or_eq_of_mem_set hc with hc | rfl
  · exact hOld c hc
  · exact hNew

theorem two_le_countP {j : Nat} (hi : l[i]? = some a) (hj : l[j]? = some c) (hij : i ≠ j)
    (ha : p a = true) (hc : p c = true) : 2 ≤ l.countP p := by
  induction l generalizing i j with
  | nil => simp at hi
  | cons x rest ih =>
    have hOne : ∀ {k : Nat} {y : α}, rest[k]? = some y → p y = true → 1 ≤ rest.countP p :=
      fun hk hy => List.countP_pos_iff.mpr ⟨_, List.mem_of_getElem? hk, hy⟩
    cases i with
    | zero =>
      cases j with
      | zero => exact absurd rfl hij
      | succ j =>
        simp only [List.getElem?_cons_zero, Option.some.injEq, List.getElem?_cons_succ] at hi hj
        have hRest := hOne hj hc
        rw [hi, List.countP_cons_of_pos ha]
        omega
    | succ i =>
      cases j with
      | zero =>
        simp only [List.getElem?_cons_zero, Option.some.injEq, List.getElem?_cons_succ] at hi hj
        have hRest := hOne hi ha
        rw [hj, List.countP_cons_of_pos hc]
        omega
      | succ j =>
        have hRest := ih (by simpa using hi) (by simpa using hj) (by omega)
        rw [List.countP_cons]
        omega

/-- When one call has the property and it is the replaced one, the rest is free of it. -/
theorem forall_mem_set_of_unique {Q : α → Prop} (h : l[i]? = some a) (ha : p a = true)
    (hOne : l.countP p ≤ 1) (hOld : ∀ c ∈ l, p c = false → Q c) (hNew : Q b) :
    ∀ c ∈ l.set i b, Q c := by
  intro c hc
  obtain ⟨j, hj⟩ := List.mem_iff_getElem?.mp hc
  by_cases hij : i = j
  · subst hij
    rw [getElem?_set_of_some h] at hj
    rw [← Option.some.inj hj]
    exact hNew
  · rw [List.getElem?_set_ne hij] at hj
    apply hOld c (List.mem_of_getElem? hj)
    by_contra hp
    have hTwo := two_le_countP h hj hij ha (by simpa using hp)
    omega

end QuicSql.Lib
