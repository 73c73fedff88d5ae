import Mathlib.Algebra.Order.Ring.Int
import Mathlib.Data.List.Basic

/-!
# Fields of a byte string

Fields are told apart by a separator, from the left or from the right, or by their place in
a buffer of fixed length, where a field that is written does not disturb the others.
-/

namespace QuicSql.Lib

universe u

section Separated

variable {α : Type u} {sep : α} {a a' x x' : List α}

/-- The first separator ends a field that has none. -/
theorem eq_of_append_sep (h : sep ∉ a) (h' : sep ∉ a') (hEq : a ++ sep :: x = a' ++ sep :: x') : a = a' ∧ x = x' := by
  induction a generalizing a' with
  | nil =>
    cases a' with
    | nil => exact ⟨rfl, (List.cons.inj hEq).2⟩
    | cons c a' => exact absurd ((List.cons.inj hEq).1 ▸ List.mem_cons_self) h'
  | cons c a ih =>
    cases a' with
    | nil => exact absurd ((List.cons.inj hEq).1 ▸ List.mem_cons_self) h
    | cons c' a' =>
      obtain ⟨rfl, hRest⟩ := List.cons.inj hEq
      obtain ⟨rfl, rfl⟩ := ih (List.not_mem_of_not_mem_cons h) (List.not_mem_of_not_mem_cons h') hRest
      exact ⟨rfl, rfl⟩

/-- The last separator starts a field that has none. -/
theorem eq_of_sep_append (h : sep ∉ a) (h' : sep ∉ a') (hEq : x ++ sep :: a = x' ++ sep :: a') : x = x' ∧ a = a' := by
  have hReverse : a.reverse ++ sep :: x.reverse = a'.reverse ++ sep :: x'.reverse := by
    simpa using congrArg List.reverse hEq
  rw [← List.mem_reverse] at h h'
  obtain ⟨hField, hRest⟩ := eq_of_append_sep h h' hReverse
  exact ⟨List.reverse_inj.mp hRest, List.reverse_inj.mp hField⟩

end Separated

section Buffer

variable {α : Type u} {buf src rest : List α} {off pos n i : Nat}

/-- As many symbols as there is room for are copied to the place. -/
def copyAt (buf : List α) (off : Nat) (src : List α) : List α :=
  buf.take off ++ src.take (buf.length - off) ++ buf.drop (off + src.length)

def readAt (buf : List α) (pos n : Nat) : List α := (buf.drop pos).take n

theorem length_copyAt (h : off ≤ buf.length) : (copyAt buf off src).length = buf.length := by
  simp only [copyAt, List.length_append, List.length_take, List.length_drop]
  omega

theorem getElem?_copyAt (h : off + src.length ≤ buf.length) :
    (copyAt buf off src)[i]? = if off ≤ i ∧ i < off + src.length then src[i - off]? else buf[i]? := by
  have hTake : (buf.take off).length = off := List.length_take_of_le (by omega)
  have hSrc : src.take (buf.length - off) = src := List.take_of_length_le (by omega)
  rw [copyAt, hSrc, List.append_assoc]
  rcases Nat.lt_or_ge i off with hBefore | hFrom
  · rw [List.getElem?_append_left (by omega), List.getElem?_take_of_lt hBefore, if_neg (by omega)]
  · rw [List.getElem?_append_right (by omega), hTake]
    rcases Nat.lt_or_ge i (off + src.length) with hIn | hAfter
    · rw [List.getElem?_append_left (by omega), if_pos ⟨hFrom, hIn⟩]
    · rw [List.getElem?_append_right (by omega), List.getElem?_drop, if_neg (by omega)]
      congr 1
      omega

theorem getElem?_readAt : (readAt buf pos n)[i]? = if i < n then buf[pos + i]? else none := by
  rw [readAt, List.getElem?_take]
  split
  · rw [List.getElem?_drop]
  · rfl

theorem readAt_copyAt (h : off + src.length ≤ buf.length) (hn : n = src.length) :
    readAt (copyAt buf off src) off n = src := by
  apply List.ext_getElem?
  intro i
  rw [getElem?_readAt, getElem?_copyAt h]
  split
  · rw [if_pos (by omega), Nat.add_sub_cancel_left]
  · exact (List.getElem?_eq_none (by omega)).symm

theorem readAt_copyAt_of_disjoint (h : off + src.length ≤ buf.length)
    (hDisjoint : pos + n ≤ off ∨ off + src.length ≤ pos) : readAt (copyAt buf off src) pos n = readAt buf pos n := by
  apply List.ext_getElem?
  intro i
  rw [getElem?_readAt, getElem?_readAt, getElem?_copyAt h]
  split
  · rw [if_neg (by omega)]
  · rfl

theorem readAt_append (h : pos + n ≤ buf.length) : readAt (buf ++ rest) pos n = readAt buf pos n := by
  rw [readAt, readAt, List.drop_append_of_le_length (by omega), List.take_append_of_le_length]
  rw [List.length_drop]
  omega

theorem getElem?_of_readAt {x : α} (h : readAt buf pos 1 = [x]) : buf[pos]? = some x := by
  have hFirst := congrArg (·[0]?) h
  simpa [getElem?_readAt] using hFirst

/-- The fields are written one after the other, each to its place. -/
def fill (buf : List α) (fields : List (Nat × List α)) : List α := fields.foldl (fun b f => copyAt b f.1 f.2) buf

/-- Fields in the order of their places, none over another, and all in the buffer. -/
structure Layout (size : Nat) (fields : List (Nat × List α)) : Prop where
  ordered : fields.Pairwise (fun f g => f.1 + f.2.length ≤ g.1)
  fits : ∀ f ∈ fields, f.1 + f.2.length ≤ size

variable {size : Nat} {f : Nat × List α} {fields : List (Nat × List α)}

theorem Layout.tail (h : Layout size (f :: fields)) : Layout size fields :=
  ⟨(List.pairwise_cons.mp h.ordered).2, fun g hg => h.fits g (List.mem_cons_of_mem _ hg)⟩

theorem Layout.mono {larger : Nat} (h : Layout size fields) (hLe : size ≤ larger) : Layout larger fields :=
  ⟨h.ordered, fun f hf => Nat.le_trans (h.fits f hf) hLe⟩

theorem Layout.snoc (h : Layout size fields) (hStart : size ≤ f.1) : Layout (f.1 + f.2.length) (fields ++ [f]) := by
  constructor
  · rw [List.pairwise_append]
    refine ⟨h.ordered, List.pairwise_singleton _ _, ?_⟩
    intro g hg g' hg'
    rw [List.mem_singleton.mp hg']
    exact Nat.le_trans (h.fits g hg) hStart
  · intro g hg
    rcases List.mem_append.mp hg with hg | hg
    · exact Nat.le_trans (h.fits g hg) (by omega)
    · exact List.mem_singleton.mp hg ▸ Nat.le_refl _

theorem Layout.length_copyAt (h : Layout buf.length (f :: fields)) : (copyAt buf f.1 f.2).length = buf.length := by
  have hFits := h.fits f List.mem_cons_self
  exact Lib.length_copyAt (by omega)

theorem length_fill (h : Layout buf.length fields) : (fill buf fields).length = buf.length := by
  induction fields generalizing buf with
  | nil => rfl
  | cons f fields ih =>
    have hLength := h.length_copyAt
    rw [← hLength]
    exact ih (hLength.symm ▸ h.tail)

theorem readAt_fill_of_apart (h : Layout buf.length fields)
    (hApart : ∀ f ∈ fields, pos + n ≤ f.1 ∨ f.1 + f.2.length ≤ pos) : readAt (fill buf fields) pos n = readAt buf pos n := by
  induction fields generalizing buf with
  | nil => rfl
  | cons f fields ih =>
    rw [← readAt_copyAt_of_disjoint (h.fits f List.mem_cons_self) (hApart f List.mem_cons_self)]
    exact ih (h.length_copyAt.symm ▸ h.tail) (fun g hg => hApart g (List.mem_cons_of_mem _ hg))

theorem readAt_fill (h : Layout buf.length fields) (hField : (off, src) ∈ fields) (hn : n = src.length) :
    readAt (fill buf fields) off n = src := by
  induction fields generalizing buf with
  | nil => cases hField
  | cons f fields ih =>
    have hTail : Layout (copyAt buf f.1 f.2).length fields := h.length_copyAt.symm ▸ h.tail
    rcases List.mem_cons.mp hField with rfl | hLater
    · -- what is written later starts after this field
      have hHere : readAt (copyAt buf off src) off n = src := readAt_copyAt (h.fits _ List.mem_cons_self) hn
      have hKept : readAt (fill (copyAt buf off src) fields) off n = readAt (copyAt buf off src) off n := by
        apply readAt_fill_of_apart hTail
        intro g hg
        have hAfter := (List.pairwise_cons.mp h.ordered).1 g hg
        dsimp only at hAfter
        omega
      exact hKept.trans hHere
    · exact ih hTail hLater

end Buffer

section BigEndian

/-- The number in this many bytes, the highest first. -/
def bigEndian : Nat → Nat → List UInt8
  | 0, _ => []
  | width + 1, n => bigEndian width (n / 256) ++ [UInt8.ofNat n]

def ofBigEndian (bytes : List UInt8) : Nat := bytes.foldl (fun n b => n * 256 + b.toNat) 0

@[simp]
theorem length_bigEndian (width n : Nat) : (bigEndian width n).length = width := by
  induction width generalizing n with
  | zero => rfl
  | succ width ih => rw [bigEndian, List.length_append, ih, List.length_singleton]

theorem ofBigEndian_bigEndian {width n : Nat} (h : n < 256 ^ width) : ofBigEndian (bigEndian width n) = n := by
  induction width generalizing n with
  | zero =>
    rw [Nat.pow_zero, Nat.lt_one_iff] at h
    rw [h]
    rfl
  | succ width ih =>
    have hHigh : n / 256 < 256 ^ width := by
      rw [Nat.div_lt_iff_lt_mul (by decide)]
      rwa [Nat.pow_succ] at h
    have hFold := ih hHigh
    unfold ofBigEndian at hFold ⊢
    rw [bigEndian, List.foldl_append, hFold, List.foldl_cons, List.foldl_nil, UInt8.toNat_ofNat']
    omega

end BigEndian

end QuicSql.Lib
