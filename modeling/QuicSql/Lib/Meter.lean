import Mathlib.Algebra.Order.Field.Rat
import Mathlib.Tactic.Linarith
import Mathlib.Tactic.Ring

/-!
# Metered admissions

A component answers timed calls with yes or no. If its state has a level that never exceeds a
burst, grows no faster than a rate and pays for every admission of one kind, then no window of
time has more of these admissions than the burst and what the rate adds in the window.
-/

namespace QuicSql.Lib

universe u v

variable {σ : Type u} {α : Type v}

section Runs

variable (step : σ → α → σ × Bool)

def admitted : σ → List α → List α
  | _, [] => []
  | s, a :: rest => (if (step s a).2 then [a] else []) ++ admitted (step s a).1 rest

def after (s : σ) (calls : List α) : σ := calls.foldl (fun s a => (step s a).1) s

variable {step}

theorem admitted_append (s : σ) (calls rest : List α) :
    admitted step s (calls ++ rest) = admitted step s calls ++ admitted step (after step s calls) rest := by
  induction calls generalizing s with
  | nil => rfl
  | cons a calls ih =>
    rw [List.cons_append, admitted, admitted, ih, List.append_assoc]
    rfl

theorem after_append (s : σ) (calls rest : List α) :
    after step s (calls ++ rest) = after step (after step s calls) rest :=
  List.foldl_append

theorem after_invariant {I : σ → Prop} (hStep : ∀ s a, I s → I (step s a).1) {s : σ} (hInit : I s) (calls : List α) :
    I (after step s calls) := by
  induction calls generalizing s with
  | nil => exact hInit
  | cons a rest ih => exact ih (hStep s a hInit)

theorem mem_of_mem_admitted {s : σ} {calls : List α} {a : α} (h : a ∈ admitted step s calls) : a ∈ calls := by
  induction calls generalizing s with
  | nil => cases h
  | cons b rest ih =>
    rcases List.mem_append.mp h with hHead | hRest
    · split at hHead
      · exact List.mem_singleton.mp hHead ▸ List.mem_cons_self
      · cases hHead
    · exact List.mem_cons_of_mem _ (ih hRest)

end Runs

def InOrder (time : α → ℚ) (calls : List α) : Prop := calls.Pairwise (fun a b => time a ≤ time b)

/-- The calls of a kind in the window of length `d` from `start` on. -/
def within (time : α → ℚ) (mine : α → Bool) (start d : ℚ) (calls : List α) : Nat :=
  calls.countP (fun a => mine a && decide (start ≤ time a) && decide (time a ≤ start + d))

/-- The level pays for the admissions of a kind; `Sound s t` says that `s` is a state as of
time `t`. -/
structure Metered (step : σ → α → σ × Bool) (time : α → ℚ) (mine : α → Bool) (burst rate : ℚ)
    (Sound : σ → ℚ → Prop) (level : σ → ℚ → ℚ) : Prop where
  rate_nonneg : 0 ≤ rate
  later : ∀ {s t t'}, Sound s t → t ≤ t' → Sound s t'
  stepped : ∀ {s a}, Sound s (time a) → Sound (step s a).1 (time a)
  nonneg : ∀ {s t}, Sound s t → 0 ≤ level s t
  capped : ∀ s t, level s t ≤ burst
  grows : ∀ {s t t'}, Sound s t → t ≤ t' → level s t' ≤ level s t + rate * (t' - t)
  pays : ∀ {s a}, Sound s (time a) →
    level (step s a).1 (time a) + (if mine a && (step s a).2 then 1 else 0) ≤ level s (time a)

namespace Metered

variable {step : σ → α → σ × Bool} {time : α → ℚ} {mine : α → Bool} {burst rate : ℚ} {Sound : σ → ℚ → Prop}
  {level : σ → ℚ → ℚ} {start d : ℚ}

theorem within_eq_zero {s : σ} {calls : List α} (h : ∀ a ∈ calls, start + d < time a) :
    within time mine start d (admitted step s calls) = 0 := by
  refine List.countP_eq_zero.mpr fun a ha => ?_
  have hLate := h a (mem_of_mem_admitted ha)
  simp [not_le.mpr hLate]

theorem within_late {s : σ} {a : α} {rest : List α} (hOrder : InOrder time (a :: rest)) (hLate : start + d < time a) :
    within time mine start d (admitted step s (a :: rest)) = 0 := by
  refine within_eq_zero fun b hb => ?_
  rcases List.mem_cons.mp hb with rfl | hb
  · exact hLate
  · exact lt_of_lt_of_le hLate ((List.pairwise_cons.mp hOrder).1 b hb)

/-- From inside of the window on, the level is what is left for the rest of it. -/
theorem within_le_level (h : Metered step time mine burst rate Sound level) {s : σ} {t : ℚ} {calls : List α}
    (hSound : Sound s t) (hEnd : t ≤ start + d) (hOrder : InOrder time calls) (hLater : ∀ a ∈ calls, t ≤ time a) :
    (within time mine start d (admitted step s calls) : ℚ) ≤ level s t + rate * (start + d - t) := by
  induction calls generalizing s t with
  | nil =>
    have hLevel := h.nonneg hSound
    have hRest := mul_nonneg h.rate_nonneg (sub_nonneg.mpr hEnd)
    simpa [admitted, within] using add_nonneg hLevel hRest
  | cons a rest ih =>
    obtain ⟨hFirst, hRestOrder⟩ := List.pairwise_cons.mp hOrder
    have hNow := hLater a List.mem_cons_self
    have hSoundNow := h.later hSound hNow
    have hGrows := h.grows hSound hNow
    rcases le_or_gt (time a) (start + d) with hIn | hOut
    · have hRest := ih (h.stepped hSoundNow) hIn hRestOrder hFirst
      have hPays := h.pays hSoundNow
      have hHead : within time mine start d (if (step s a).2 then [a] else []) ≤
          if mine a && (step s a).2 then 1 else 0 := by
        cases (step s a).2 <;> cases hMine : mine a <;> simp [within, hMine]
        split <;> simp
      have hCount : (within time mine start d (admitted step s (a :: rest)) : ℚ) ≤
          (if mine a && (step s a).2 then 1 else 0) +
            within time mine start d (admitted step (step s a).1 rest) := by
        have hSplit : within time mine start d (admitted step s (a :: rest)) =
            within time mine start d (if (step s a).2 then [a] else []) +
              within time mine start d (admitted step (step s a).1 rest) := List.countP_append
        rw [hSplit]
        push_cast
        have hCast : (within time mine start d (if (step s a).2 then [a] else []) : ℚ) ≤
            ((if mine a && (step s a).2 then 1 else 0 : ℕ) : ℚ) := by
          exact_mod_cast hHead
        push_cast at hCast
        linarith
      linarith
    · -- This call and all later ones come after the window.
      have hLevel := h.nonneg hSound
      have hRest := mul_nonneg h.rate_nonneg (sub_nonneg.mpr hEnd)
      rw [within_late hOrder hOut]
      simpa using add_nonneg hLevel hRest

/-- In every window of length `d` there are at most the burst and what the rate adds in it. -/
theorem within_le (h : Metered step time mine burst rate Sound level) {s : σ} {t : ℚ} {calls : List α}
    (hSound : Sound s t) (hOrder : InOrder time calls) (hLater : ∀ a ∈ calls, t ≤ time a) (hLength : 0 ≤ d) :
    (within time mine start d (admitted step s calls) : ℚ) ≤ burst + rate * d := by
  induction calls generalizing s t with
  | nil =>
    have hBurst := (h.nonneg hSound).trans (h.capped s t)
    simpa [admitted, within] using add_nonneg hBurst (mul_nonneg h.rate_nonneg hLength)
  | cons a rest ih =>
    obtain ⟨hFirst, hRestOrder⟩ := List.pairwise_cons.mp hOrder
    have hSoundNow := h.later hSound (hLater a List.mem_cons_self)
    rcases lt_or_ge (time a) start with hEarly | hIn
    · have hSkip : within time mine start d (admitted step s (a :: rest)) =
          within time mine start d (admitted step (step s a).1 rest) := by
        rw [within, admitted, List.countP_append]
        simp [apply_ite, not_le.mpr hEarly, within]
      rw [hSkip]
      exact ih (h.stepped hSoundNow) hRestOrder hFirst
    · rcases le_or_gt (time a) (start + d) with hBefore | hAfter
      · have hLater' : ∀ b ∈ a :: rest, time a ≤ time b := by
          intro b hb
          rcases List.mem_cons.mp hb with rfl | hb
          · exact le_refl _
          · exact hFirst b hb
        have hLevel := h.within_le_level hSoundNow hBefore hOrder hLater'
        have hCapped := h.capped s (time a)
        have hRate : rate * (start + d - time a) ≤ rate * d :=
          mul_le_mul_of_nonneg_left (by linarith) h.rate_nonneg
        linarith
      · have hBurst := (h.nonneg hSound).trans (h.capped s t)
        rw [within_late hOrder hAfter]
        simpa using add_nonneg hBurst (mul_nonneg h.rate_nonneg hLength)

theorem within_le_of_initial (h : Metered step time mine burst rate Sound level) {s : σ} {calls : List α}
    (hSound : ∀ t, Sound s t) (hOrder : InOrder time calls) (hLength : 0 ≤ d) :
    (within time mine start d (admitted step s calls) : ℚ) ≤ burst + rate * d := by
  cases calls with
  | nil => exact h.within_le (hSound 0) hOrder (by simp) hLength
  | cons a rest =>
    refine h.within_le (hSound (time a)) hOrder (fun b hb => ?_) hLength
    rcases List.mem_cons.mp hb with rfl | hb
    · exact le_refl _
    · exact (List.pairwise_cons.mp hOrder).1 b hb

end Metered

/-! ## Durations -/

/-- `Time.Sub`, in nanoseconds: the difference, cut off where an int64 ends. -/
def elapsed (now last : Int) : Int := max (-2 ^ 63) (min (2 ^ 63 - 1) (now - last))

/-- `Duration.Seconds`. -/
def seconds (d : Int) : ℚ := d / 1000000000

theorem seconds_nonneg {d : Int} (h : 0 ≤ d) : 0 ≤ seconds d :=
  div_nonneg (by exact_mod_cast h) (by norm_num)

theorem seconds_le_iff {c d : Int} : seconds c ≤ seconds d ↔ c ≤ d := by
  rw [seconds, seconds, div_le_div_iff_of_pos_right (by norm_num), Int.cast_le]

theorem seconds_sub (c d : Int) : seconds (c - d) = seconds c - seconds d := by
  rw [seconds, Int.cast_sub, sub_div]
  rfl

theorem elapsed_nonneg {now last : Int} (h : last ≤ now) : 0 ≤ elapsed now last := by
  unfold elapsed
  omega

theorem elapsed_le {now last : Int} (h : last ≤ now) : elapsed now last ≤ now - last := by
  unfold elapsed
  omega

/-- What is cut off is never counted. -/
theorem seconds_elapsed_le {now last : Int} (h : last ≤ now) : seconds (elapsed now last) ≤ seconds now - seconds last := by
  rw [← seconds_sub]
  exact seconds_le_iff.mpr (elapsed_le h)

/-! ## Token buckets -/

structure Bucket where
  tokens : ℚ
  last : Int
deriving DecidableEq, Repr

namespace Bucket

variable (burst rate : ℚ) (b : Bucket)

def refill (now : Int) : ℚ := min burst (b.tokens + seconds (elapsed now b.last) * rate)

/-- The tokens that a refill finds at most. -/
def level (t : ℚ) : ℚ := min burst (b.tokens + (t - seconds b.last) * rate)

structure Sound (t : ℚ) : Prop where
  nonneg : 0 ≤ b.tokens
  past : seconds b.last ≤ t

variable {burst rate b} {t t' : ℚ} {now : Int}

theorem Sound.later (h : b.Sound t) (hLe : t ≤ t') : b.Sound t' := ⟨h.nonneg, h.past.trans hLe⟩

theorem level_capped (burst rate : ℚ) (b : Bucket) (t : ℚ) : b.level burst rate t ≤ burst := min_le_left _ _

theorem Sound.level_nonneg (h : b.Sound t) (hBurst : 0 ≤ burst) (hRate : 0 ≤ rate) : 0 ≤ b.level burst rate t :=
  le_min hBurst (add_nonneg h.nonneg (mul_nonneg (sub_nonneg.mpr h.past) hRate))

theorem level_grows (b : Bucket) (burst : ℚ) (hRate : 0 ≤ rate) (hLe : t ≤ t') :
    b.level burst rate t' ≤ b.level burst rate t + rate * (t' - t) := by
  have hGrowth : 0 ≤ rate * (t' - t) := mul_nonneg hRate (sub_nonneg.mpr hLe)
  rw [level, level, ← min_add_add_right]
  refine le_min ((min_le_left _ _).trans (by linarith)) ((min_le_right _ _).trans (le_of_eq ?_))
  ring

theorem level_at_last (burst rate : ℚ) (b : Bucket) : b.level burst rate (seconds b.last) ≤ b.tokens := by
  rw [level, sub_self, zero_mul, add_zero]
  exact min_le_right _ _

theorem Sound.refill_nonneg (h : b.Sound (seconds now)) (hBurst : 0 ≤ burst) (hRate : 0 ≤ rate) :
    0 ≤ b.refill burst rate now := by
  have hElapsed := seconds_nonneg (elapsed_nonneg (seconds_le_iff.mp h.past))
  exact le_min hBurst (add_nonneg h.nonneg (mul_nonneg hElapsed hRate))

theorem Sound.refill_le_level (h : b.Sound (seconds now)) (hRate : 0 ≤ rate) :
    b.refill burst rate now ≤ b.level burst rate (seconds now) := by
  have hElapsed := seconds_elapsed_le (seconds_le_iff.mp h.past)
  exact min_le_min_left _ (add_le_add_right (mul_le_mul_of_nonneg_right hElapsed hRate) _)

theorem Sound.level_of_refilled (h : b.Sound t) (hRate : 0 < rate) (hTime : burst / rate ≤ t - seconds b.last) :
    b.level burst rate t = burst := by
  have hEnough := (div_le_iff₀ hRate).mp hTime
  have hTokens := h.nonneg
  exact min_eq_left (by linarith)

/-! A client whose bucket is missing gets a full one. -/

def levelOf (burst rate : ℚ) (o : Option Bucket) (t : ℚ) : ℚ := (o.map (level burst rate · t)).getD burst

variable {o : Option Bucket}

theorem levelOf_capped (burst rate : ℚ) (o : Option Bucket) (t : ℚ) : levelOf burst rate o t ≤ burst := by
  cases o with
  | none => exact le_refl burst
  | some b => exact level_capped burst rate b t

theorem levelOf_nonneg (h : ∀ b ∈ o, b.Sound t) (hBurst : 0 ≤ burst) (hRate : 0 ≤ rate) : 0 ≤ levelOf burst rate o t := by
  cases o with
  | none => exact hBurst
  | some b => exact (h b rfl).level_nonneg hBurst hRate

theorem levelOf_grows (o : Option Bucket) (burst : ℚ) (hRate : 0 ≤ rate) (hLe : t ≤ t') :
    levelOf burst rate o t' ≤ levelOf burst rate o t + rate * (t' - t) := by
  cases o with
  | none => exact le_add_of_nonneg_right (mul_nonneg hRate (sub_nonneg.mpr hLe))
  | some b => exact level_grows b burst hRate hLe

theorem levelOf_just_stored (burst rate : ℚ) (tokens : ℚ) (now : Int) :
    levelOf burst rate (some ⟨tokens, now⟩) (seconds now) ≤ tokens :=
  level_at_last burst rate ⟨tokens, now⟩

end Bucket

end QuicSql.Lib
