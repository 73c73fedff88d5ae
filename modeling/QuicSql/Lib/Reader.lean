import Mathlib.Algebra.Order.Ring.Int
import Mathlib.Data.List.Basic
import Mathlib.Data.PNat.Notation

/-!
# Readers of a byte stream

A reader delivers its content in pieces of its own choice, some of them empty, and reports
the end with the last piece or after it. A limited reader stops after a signed 64-bit count,
and at once when the count is not positive. Copying loops read until the end is reported.
-/

namespace QuicSql.Lib

universe u v w x

inductive ReadStatus where
  | more
  | eof
  | failed
deriving DecidableEq, Repr

structure Piece (α : Type u) (σ : Type v) where
  data : List α
  status : ReadStatus
  next : σ

/-- `rest` is what is still to be delivered, `reads` bounds how many reads it takes. -/
structure Reader (α : Type u) (σ : Type v) where
  read : σ → Nat → Piece α σ
  rest : σ → List α
  reads : σ → Nat
  length_le : ∀ s n, (read s n).data.length ≤ n
  rest_eq : ∀ s n, rest s = (read s n).data ++ rest (read s n).next
  rest_eof : ∀ s n, (read s n).status = .eof → rest (read s n).next = []
  reads_lt : ∀ s n, 0 < n → (read s n).status = .more → reads (read s n).next < reads s

namespace Reader

variable {α : Type u} {σ : Type v} {β : Type w} {ε : Type x}

def Reliable (r : Reader α σ) : Prop := ∀ s n, (r.read s n).status ≠ .failed

/-! ## Chunks -/

/-- The end is reported with the last chunk, or `late`, by a read of its own. -/
def ofChunks (late : Bool) : Reader α (List (List α)) where
  read
    | [], _ => ⟨[], .eof, []⟩
    | c :: cs, n =>
      if c.length ≤ n then ⟨c, if cs.isEmpty && !late then .eof else .more, cs⟩ else ⟨c.take n, .more, c.drop n :: cs⟩
  rest := List.flatten
  reads cs := cs.flatten.length + cs.length
  length_le s n := by
    cases s with
    | nil => exact Nat.zero_le n
    | cons c cs =>
      dsimp only
      split
      · assumption
      · exact List.length_take_le n c
  rest_eq s n := by
    cases s with
    | nil => rfl
    | cons c cs =>
      dsimp only
      split
      · rfl
      · simp [← List.append_assoc]
  rest_eof s n h := by
    cases s with
    | nil => rfl
    | cons c cs =>
      dsimp only at h ⊢
      split at h
      · split at h
        · rename_i hFits hEnd
          rw [if_pos hFits]
          simp_all
        · cases h
      · cases h
  reads_lt s n hn h := by
    cases s with
    | nil => cases h
    | cons c cs =>
      dsimp only
      split
      · simp
        omega
      · simp
        omega

theorem ofChunks_reliable (late : Bool) : (ofChunks late : Reader α _).Reliable := by
  intro s n
  cases s with
  | nil => simp [ofChunks]
  | cons c cs =>
    dsimp only [ofChunks]
    split
    · split <;> simp
    · simp

/-! ## Limits -/

theorem toInt_sub_ofNat {N : Int64} {k : Nat} (h : (k : Int) ≤ N.toInt) :
    (N - Int64.ofNat k).toInt = N.toInt - k := by
  have hBound := N.toInt_lt
  have hk : (Int64.ofNat k).toInt = k := Int64.toInt_ofNat_of_lt (by omega)
  rw [Int64.toInt_sub, hk]
  exact Int.bmod_eq_of_le (by omega) (by omega)

theorem toInt_add_one {N : Int64} (h : N < Int64.maxValue) : (N + 1).toInt = N.toInt + 1 := by
  have hLow := N.le_toInt
  have hBelow : N.toInt < 2 ^ 63 - 1 := Int64.lt_iff_toInt_lt.mp h
  rw [Int64.toInt_add]
  exact Int.bmod_eq_of_le (by simp; omega) (by simp; omega)

theorem eq_maxValue_of_not_lt {N : Int64} (h : ¬ N < Int64.maxValue) : N = Int64.maxValue :=
  Int64.le_antisymm N.le_maxValue (Int64.not_lt.mp h)

/-- `io.LimitReader`: the state carries the count that is left. -/
def limit (r : Reader α σ) : Reader α (σ × Int64) where
  read
    | (s, N), n =>
      if N ≤ 0 then ⟨[], .eof, (s, N)⟩
      else
        let p := r.read s (min n N.toInt.toNat)
        ⟨p.data, p.status, (p.next, N - Int64.ofNat p.data.length)⟩
  rest | (s, N) => (r.rest s).take N.toInt.toNat
  reads | (s, _) => r.reads s
  length_le := by
    rintro ⟨s, N⟩ n
    dsimp only
    split
    · exact Nat.zero_le n
    · exact Nat.le_trans (r.length_le s _) (Nat.min_le_left _ _)
  rest_eq := by
    rintro ⟨s, N⟩ n
    dsimp only
    split
    · rfl
    · rename_i hPos
      have hLeft : 0 < N.toInt := by simpa [Int64.le_iff_toInt_le] using hPos
      have hLength := r.length_le s (min n N.toInt.toNat)
      dsimp only
      rw [toInt_sub_ofNat (by omega)]
      conv_lhs => rw [r.rest_eq s (min n N.toInt.toNat)]
      rw [List.take_append, List.take_of_length_le (by omega)]
      congr 2
      omega
  rest_eof := by
    rintro ⟨s, N⟩ n h
    dsimp only at h ⊢
    split at h
    · rename_i hNeg
      have hLeft : N.toInt ≤ 0 := by simpa [Int64.le_iff_toInt_le] using hNeg
      rw [if_pos hNeg]
      dsimp only
      rw [Int.toNat_of_nonpos hLeft, List.take_zero]
    · rename_i hPos
      rw [if_neg hPos]
      dsimp only
      rw [r.rest_eof s _ h, List.take_nil]
  reads_lt := by
    rintro ⟨s, N⟩ n hn h
    dsimp only at h ⊢
    split at h
    · cases h
    · rename_i hPos
      have hLeft : 0 < N.toInt := by simpa [Int64.le_iff_toInt_le] using hPos
      rw [if_neg hPos]
      exact r.reads_lt s _ (by omega) h

theorem Reliable.limit {r : Reader α σ} (h : r.Reliable) : r.limit.Reliable := by
  rintro ⟨s, N⟩ n
  dsimp only [Reader.limit]
  split
  · simp
  · exact h s _

@[simp] theorem limit_rest (r : Reader α σ) (s : σ) (N : Int64) :
    r.limit.rest (s, N) = (r.rest s).take N.toInt.toNat := rfl

theorem limit_rest_length (r : Reader α σ) (s : σ) (N : Int64) : (r.limit.rest (s, N)).length < 2 ^ 63 := by
  have hTake := List.length_take_le N.toInt.toNat (r.rest s)
  have hUpper := N.toInt_lt
  rw [limit_rest]
  omega

/-! ### One past the cap -/

section Cap

variable {r : Reader α σ} {s : σ} {cap : Int64}

/-- What is read with a limit of one past the cap, which wraps at the largest cap. -/
def capped (r : Reader α σ) (s : σ) (cap : Int64) : List α := r.limit.rest (s, cap + 1)

theorem capped_of_fits (hCap : cap < Int64.maxValue) (hFits : (r.rest s).length ≤ cap.toInt) :
    r.capped s cap = r.rest s := by
  rw [capped, limit_rest, toInt_add_one hCap]
  exact List.take_of_length_le (by omega)

theorem lt_capped_iff (hCap : cap < Int64.maxValue) :
    cap < Int64.ofNat (r.capped s cap).length ↔ ¬ (r.rest s).length ≤ cap.toInt := by
  have hLength : (Int64.ofNat (r.capped s cap).length).toInt = (r.capped s cap).length :=
    Int64.toInt_ofNat_of_lt (limit_rest_length r s _)
  rw [Int64.lt_iff_toInt_lt, hLength, capped, limit_rest, List.length_take, toInt_add_one hCap]
  omega

/-- Below the largest cap, testing what was read tests the content. -/
theorem ite_capped {γ : Type w} (hCap : cap < Int64.maxValue) (tooLong : γ) (f : List α → γ) :
    (if cap < Int64.ofNat (r.capped s cap).length then tooLong else f (r.capped s cap)) =
      if (r.rest s).length ≤ cap.toInt then f (r.rest s) else tooLong := by
  by_cases hFits : (r.rest s).length ≤ cap.toInt
  · rw [if_neg (fun hOver => (lt_capped_iff hCap).mp hOver hFits), if_pos hFits, capped_of_fits hCap hFits]
  · rw [if_pos ((lt_capped_iff hCap).mpr hFits), if_neg hFits]

@[simp] theorem capped_maxValue : r.capped s Int64.maxValue = [] := rfl

/-- A cap that is not exceeded leaves everything, or it wrapped and leaves nothing. -/
theorem capped_eq_or_nil (h : ¬ cap < Int64.ofNat (r.capped s cap).length) :
    r.capped s cap = r.rest s ∨ r.capped s cap = [] := by
  by_cases hCap : cap < Int64.maxValue
  · exact .inl (capped_of_fits hCap (not_not.mp (mt (lt_capped_iff hCap).mpr h)))
  · rw [eq_maxValue_of_not_lt hCap]
    exact .inr capped_maxValue

end Cap

/-! ## Copying -/

/-- An empty piece is not handed on. -/
def hand (put : β → List α → Except ε β) (b : β) (data : List α) : Except ε β :=
  if data.isEmpty then .ok b else put b data

/-- The loop that reads into a buffer of the size that `room` gives, hands what it got to
`put` and stops at the end of the stream or at the first error. -/
def copyInto (r : Reader α σ) (room : β → ℕ+) (put : β → List α → Except ε β) (broken : β → ε) (s : σ) (b : β) :
    Except ε β :=
  match hand put b (r.read s (room b)).data with
  | .error e => .error e
  | .ok b' =>
    match _h : (r.read s (room b)).status with
    | .eof => .ok b'
    | .failed => .error (broken b')
    | .more => copyInto r room put broken (r.read s (room b)).next b'
termination_by r.reads s
decreasing_by exact r.reads_lt s _ (room b).property ‹_›

section Copy

variable {r : Reader α σ} {room : β → ℕ+} {put : β → List α → Except ε β} {broken : β → ε}
  {I : List α → β → Prop} {got content data : List α} {s : σ} {b c : β}

theorem hand_ok (hPut : put b data = .ok c → I (got ++ data) c) (hStart : I got b) (h : hand put b data = .ok c) :
    I (got ++ data) c := by
  unfold hand at h
  split at h
  · rename_i hEmpty
    cases h
    rw [List.isEmpty_iff.mp hEmpty, List.append_nil]
    exact hStart
  · exact hPut h

theorem hand_total (hPut : ∃ c, put b data = .ok c) : ∃ c, hand put b data = .ok c := by
  unfold hand
  split
  · exact ⟨b, rfl⟩
  · exact hPut

theorem rest_read {n : Nat} (hContent : got ++ r.rest s = content) :
    got ++ (r.read s n).data ++ r.rest (r.read s n).next = content := by
  rw [List.append_assoc, ← r.rest_eq, hContent]

/-- What `put` keeps of the bytes it was given so far, a copy that succeeds has of all. -/
theorem copyInto_ok (hPut : ∀ got b data c, got ++ data <+: content → I got b → put b data = .ok c → I (got ++ data) c)
    (hContent : got ++ r.rest s = content) (hStart : I got b) (h : r.copyInto room put broken s b = .ok c) :
    I content c := by
  fun_induction copyInto r room put broken s b generalizing got with
  | case1 s b e hHand => cases h
  | case2 s b b' hHand hEof =>
    cases h
    have hWhole := rest_read (n := room b) hContent
    have hNow := hand_ok (hPut got b _ c ⟨_, hWhole⟩ hStart) hStart hHand
    rw [r.rest_eof s _ hEof, List.append_nil] at hWhole
    rwa [hWhole] at hNow
  | case3 s b b' hHand hFailed => cases h
  | case4 s b b' hHand hMore ih =>
    have hWhole := rest_read (n := room b) hContent
    exact ih hWhole (hand_ok (hPut got b _ b' ⟨_, hWhole⟩ hStart) hStart hHand) h

theorem copyInto_total (hReliable : r.Reliable)
    (hPut : ∀ got b data, got ++ data <+: content → I got b → ∃ c, put b data = .ok c ∧ I (got ++ data) c)
    (hContent : got ++ r.rest s = content) (hStart : I got b) :
    ∃ c, r.copyInto room put broken s b = .ok c ∧ I content c := by
  have hKeeps : ∀ got b data c, got ++ data <+: content → I got b → put b data = .ok c → I (got ++ data) c := by
    intro got b data c hBelow hI hOk
    obtain ⟨c', hOk', hI'⟩ := hPut got b data hBelow hI
    cases hOk.symm.trans hOk'
    exact hI'
  have hOk : ∃ c, r.copyInto room put broken s b = .ok c := by
    fun_induction copyInto r room put broken s b generalizing got with
    | case1 s b e hHand =>
      obtain ⟨c, hOk, -⟩ := hPut got b _ ⟨_, rest_read (n := room b) hContent⟩ hStart
      obtain ⟨c', hOk'⟩ := hand_total ⟨c, hOk⟩
      cases hHand.symm.trans hOk'
    | case2 s b b' hHand hEof => exact ⟨b', rfl⟩
    | case3 s b b' hHand hFailed => exact absurd hFailed (hReliable s _)
    | case4 s b b' hHand hMore ih =>
      have hWhole := rest_read (n := room b) hContent
      exact ih hWhole (hand_ok (hKeeps got b _ b' ⟨_, hWhole⟩ hStart) hStart hHand)
  obtain ⟨c, hOk⟩ := hOk
  exact ⟨c, hOk, copyInto_ok hKeeps hContent hStart hOk⟩

end Copy

/-! ## Reading everything -/

/-- `io.ReadAll`: the buffer grows in steps of its own, and never has no room. -/
def readAll (r : Reader α σ) (room : List α → ℕ+) (broken : ε) (s : σ) : Except ε (List α) :=
  r.copyInto room (fun got data => .ok (got ++ data)) (fun _ => broken) s []

theorem readAll_ok {r : Reader α σ} {room : List α → ℕ+} {broken : ε} {s : σ} (h : r.Reliable) :
    r.readAll room broken s = .ok (r.rest s) := by
  have hAll : ∃ c, r.readAll room broken s = .ok c ∧ c = r.rest s := by
    refine copyInto_total (I := fun got b => b = got) h ?_ (List.nil_append (r.rest s)) rfl
    intro got b data _ hSame
    exact ⟨b ++ data, rfl, by rw [hSame]⟩
  obtain ⟨c, hOk, hEq⟩ := hAll
  rw [hOk, hEq]

end Reader

end QuicSql.Lib
