import QuicSql.Lib.Float64
import QuicSql.Lib.Meter
import QuicSql.Lib.Tally

/-!
# The rate of enrollments

Every address has a bucket of three tokens that refills at the configured rate. The map of
buckets is capped: a new address at the cap first evicts the buckets that have been idle for
as long as a refill takes. That time is cut off to whole seconds, so that a bucket may be
evicted before it is full; its address then comes back with a full one.
-/

namespace QuicSql.Enroll.RateLimit

open Lib

structure Service where
  buckets : Finmap (fun _ : String => Bucket)
  lastGC : Int

def new (start : Int) : Service := ⟨∅, start⟩

def bucketBurst : ℚ := 3

def maxBuckets : Nat := 4096

def truncate (q : ℚ) : Int := q.num.tdiv q.den

/-- A float as a duration. What does not fit into an int64 is up to the processor. -/
structure Conversion where
  duration : ℚ → Int64
  truncates : ∀ q, -2 ^ 63 ≤ truncate q → truncate q < 2 ^ 63 → (duration q).toInt = truncate q

variable (conv : Conversion) (ratePerIP : ℚ)

/-- The quotient is a float. The product is one of durations, and wraps. -/
def idle : Int64 := conv.duration (Float64.rounded (bucketBurst / ratePerIP)) * 1000000000

namespace Service

def size (s : Service) : Nat := tally s.buckets (fun _ => true)

def evict (s : Service) (now : Int) : Service where
  buckets := retain (fun b => !decide ((idle conv ratePerIP).toInt < elapsed now b.last)) s.buckets
  lastGC := now

def put (s : Service) (ip : String) (b : Bucket) : Service := { s with buckets := s.buckets.insert ip b }

def allow (s : Service) (now : Int) (ip : String) : Service × Bool :=
  if ratePerIP ≤ 0 then (s, true)
  else
    match s.buckets.lookup ip with
    | some b =>
      let tokens := min bucketBurst (b.tokens + seconds (elapsed now b.last) * ratePerIP)
      if tokens < 1 then (s.put ip ⟨tokens, now⟩, false) else (s.put ip ⟨tokens - 1, now⟩, true)
    | none =>
      if maxBuckets ≤ s.size then
        let s' := s.evict conv ratePerIP now
        if maxBuckets ≤ s'.size then (s', false) else (s'.put ip ⟨bucketBurst - 1, now⟩, true)
      else (s.put ip ⟨bucketBurst - 1, now⟩, true)

end Service

structure Call where
  time : Int
  ip : String
deriving DecidableEq, Repr

def Call.seconds (c : Call) : ℚ := Lib.seconds c.time

def step (s : Service) (c : Call) : Service × Bool := s.allow conv ratePerIP c.time c.ip

def admittedWithin (start : Int) (calls : List Call) (ip : String) (lo d : ℚ) : Nat :=
  within Call.seconds (fun c => c.ip = ip) lo d (admitted (step conv ratePerIP) (new start) calls)

/-- A bucket that may be evicted has had the time to refill. -/
def RefilledWhenIdle : Prop := bucketBurst / ratePerIP ≤ seconds (max 0 ((idle conv ratePerIP).toInt + 1))

theorem truncate_of_nonneg {q : ℚ} (h : 0 ≤ q) : truncate q = ⌊q⌋ := by
  rw [truncate, Int.tdiv_eq_ediv_of_nonneg (Rat.num_nonneg.mpr h), Rat.floor_def']

/-- As long as the product of durations fits, a refill has to take no longer than the whole
seconds of the rounded quotient, up to the nanosecond that an eviction waits longer. -/
theorem refilledWhenIdle_iff {ratePerIP : ℚ} (hRate : 0 < ratePerIP)
    (hFits : Float64.rounded (bucketBurst / ratePerIP) * 1000000000 < 2 ^ 63) :
    RefilledWhenIdle conv ratePerIP ↔
      bucketBurst / ratePerIP ≤ ⌊Float64.rounded (bucketBurst / ratePerIP)⌋ + 1 / 1000000000 := by
  have hNonneg : 0 ≤ Float64.rounded (bucketBurst / ratePerIP) :=
    Float64.rounded_nonneg (div_nonneg (by norm_num [bucketBurst]) hRate.le)
  have hIdle : (idle conv ratePerIP).toInt = ⌊Float64.rounded (bucketBurst / ratePerIP)⌋ * 1000000000 := by
    rw [idle]
    generalize Float64.rounded (bucketBurst / ratePerIP) = quotient at hFits hNonneg
    have hFloor : 0 ≤ ⌊quotient⌋ := Int.floor_nonneg.mpr hNonneg
    have hProduct : ⌊quotient⌋ * 1000000000 < 2 ^ 63 := by
      have hLe := mul_le_mul_of_nonneg_right (Int.floor_le quotient) (by norm_num : (0 : ℚ) ≤ 1000000000)
      exact_mod_cast hLe.trans_lt hFits
    have hSecond : (1000000000 : Int64).toInt = 1000000000 := by decide
    have hTruncate := truncate_of_nonneg hNonneg
    rw [Int64.toInt_mul, hSecond, conv.truncates _ (by omega) (by omega), hTruncate]
    exact Int.bmod_eq_of_le (by omega) (by omega)
  have hFloor : 0 ≤ ⌊Float64.rounded (bucketBurst / ratePerIP)⌋ := Int.floor_nonneg.mpr hNonneg
  rw [RefilledWhenIdle, hIdle, max_eq_right (by omega), seconds]
  push_cast
  constructor <;> intro h <;> linarith

/-! ## The map -/

variable {conv ratePerIP} {s : Service} {c : Call}

@[simp] theorem lookup_put (s : Service) (ip : String) (b : Bucket) : (s.put ip b).buckets.lookup ip = some b :=
  Finmap.lookup_insert _

theorem lookup_put_of_ne (s : Service) {ip ip' : String} (b : Bucket) (h : ip' ≠ ip) :
    (s.put ip b).buckets.lookup ip' = s.buckets.lookup ip' :=
  Finmap.lookup_insert_of_ne _ h

theorem lookup_evict (s : Service) (now : Int) (ip : String) : (s.evict conv ratePerIP now).buckets.lookup ip =
    (s.buckets.lookup ip).filter (fun b => !decide ((idle conv ratePerIP).toInt < elapsed now b.last)) :=
  lookup_retain _ _ _

theorem size_put_new {ip : String} (h : s.buckets.lookup ip = none) (b : Bucket) : (s.put ip b).size = s.size + 1 :=
  tally_insert h b _

theorem size_put_old {ip : String} {b₀ : Bucket} (h : s.buckets.lookup ip = some b₀) (b : Bucket) :
    (s.put ip b).size = s.size := by
  have hErase := tally_erase h (fun _ => true)
  have hInsert := tally_insert_erase s.buckets ip b (fun _ => true)
  exact hInsert.trans hErase

theorem size_evict_le (s : Service) (now : Int) : (s.evict conv ratePerIP now).size ≤ s.size := by
  refine tally_le_of_subset fun ip b hb _ => ?_
  exact (Option.filter_eq_some_iff.mp ((lookup_evict s now ip).symm.trans hb)).1

inductive Allows (conv : Conversion) (ratePerIP : ℚ) (s : Service) (c : Call) : Service × Bool → Prop where
  | refused {b : Bucket} {tokens : ℚ} : s.buckets.lookup c.ip = some b →
      tokens = b.refill bucketBurst ratePerIP c.time → tokens < 1 →
      Allows conv ratePerIP s c (s.put c.ip ⟨tokens, c.time⟩, false)
  | taken {b : Bucket} {tokens : ℚ} : s.buckets.lookup c.ip = some b →
      tokens = b.refill bucketBurst ratePerIP c.time → 1 ≤ tokens →
      Allows conv ratePerIP s c (s.put c.ip ⟨tokens - 1, c.time⟩, true)
  | opened : s.buckets.lookup c.ip = none → s.size < maxBuckets →
      Allows conv ratePerIP s c (s.put c.ip ⟨bucketBurst - 1, c.time⟩, true)
  | shed : s.buckets.lookup c.ip = none → maxBuckets ≤ s.size → maxBuckets ≤ (s.evict conv ratePerIP c.time).size →
      Allows conv ratePerIP s c (s.evict conv ratePerIP c.time, false)
  | evicted : s.buckets.lookup c.ip = none → maxBuckets ≤ s.size → (s.evict conv ratePerIP c.time).size < maxBuckets →
      Allows conv ratePerIP s c ((s.evict conv ratePerIP c.time).put c.ip ⟨bucketBurst - 1, c.time⟩, true)

theorem step_allows (conv : Conversion) (hRate : 0 < ratePerIP) (s : Service) (c : Call) :
    Allows conv ratePerIP s c (step conv ratePerIP s c) := by
  unfold step Service.allow
  rw [if_neg (not_le.mpr hRate)]
  split
  · rename_i b hb
    dsimp only
    split
    · rename_i hLow
      exact .refused hb rfl hLow
    · rename_i hEnough
      exact .taken hb rfl (not_lt.mp hEnough)
  · rename_i hNone
    split
    · rename_i hFull
      dsimp only
      split
      · rename_i hStill
        exact .shed hNone hFull hStill
      · rename_i hRoom
        exact .evicted hNone hFull (not_le.mp hRoom)
    · rename_i hRoom
      exact .opened hNone (not_le.mp hRoom)

theorem size_step_le (hRate : 0 < ratePerIP) (hSize : s.size ≤ maxBuckets) : (step conv ratePerIP s c).1.size ≤ maxBuckets := by
  have hAllows := step_allows conv hRate s c
  generalize step conv ratePerIP s c = out at hAllows ⊢
  cases hAllows with
  | refused hb | taken hb => exact (size_put_old hb _).trans_le hSize
  | opened hNone hRoom => exact (size_put_new hNone _).trans_le hRoom
  | shed => exact (size_evict_le s c.time).trans hSize
  | evicted hNone _ hRoom =>
    refine (size_put_new ?_ _).trans_le hRoom
    rw [lookup_evict, hNone]
    rfl

/-! ## The level of a bucket -/

def level (ratePerIP : ℚ) (ip : String) (s : Service) (t : ℚ) : ℚ :=
  Bucket.levelOf bucketBurst ratePerIP (s.buckets.lookup ip) t

def Sound (s : Service) (t : ℚ) : Prop := ∀ ip b, s.buckets.lookup ip = some b → b.Sound t

theorem sound_new (start : Int) (t : ℚ) : Sound (new start) t := by
  intro ip b hb
  simp [new] at hb

theorem Sound.put {t : ℚ} (h : Sound s t) (ip : String) {b : Bucket} (hb : b.Sound t) : Sound (s.put ip b) t := by
  intro ip' b' hb'
  rcases eq_or_ne ip' ip with rfl | hOther
  · cases (lookup_put s ip' b).symm.trans hb'
    exact hb
  · exact h ip' b' ((lookup_put_of_ne s b hOther).symm.trans hb')

theorem Sound.evict {t : ℚ} (h : Sound s t) (now : Int) : Sound (s.evict conv ratePerIP now) t := by
  intro ip b hb
  exact h ip b (Option.filter_eq_some_iff.mp ((lookup_evict s now ip).symm.trans hb)).1

theorem burst_nonneg : 0 ≤ bucketBurst := by norm_num [bucketBurst]

theorem Sound.stepped (hRate : 0 < ratePerIP) (h : Sound s c.seconds) : Sound (step conv ratePerIP s c).1 c.seconds := by
  have hFull : (0 : ℚ) ≤ bucketBurst - 1 := by norm_num [bucketBurst]
  have hAllows := step_allows conv hRate s c
  generalize step conv ratePerIP s c = out at hAllows ⊢
  cases hAllows with
  | refused hb hTokens => exact h.put c.ip ⟨hTokens ▸ (h c.ip _ hb).refill_nonneg burst_nonneg hRate.le, le_refl _⟩
  | taken hb _ hEnough => exact h.put c.ip ⟨sub_nonneg.mpr hEnough, le_refl _⟩
  | opened => exact h.put c.ip ⟨hFull, le_refl _⟩
  | shed => exact h.evict c.time
  | evicted => exact (h.evict c.time).put c.ip ⟨hFull, le_refl _⟩

theorem level_of_none {ip : String} (h : s.buckets.lookup ip = none) (t : ℚ) : level ratePerIP ip s t = bucketBurst := by
  rw [level, h]
  rfl

theorem level_of_some {ip : String} {b : Bucket} (h : s.buckets.lookup ip = some b) (t : ℚ) :
    level ratePerIP ip s t = b.level bucketBurst ratePerIP t := by
  rw [level, h]
  rfl

theorem level_congr {s' : Service} {ip : String} (h : s'.buckets.lookup ip = s.buckets.lookup ip) (t : ℚ) :
    level ratePerIP ip s' t = level ratePerIP ip s t := by
  rw [level, level, h]

theorem level_capped (ip : String) (s : Service) (t : ℚ) : level ratePerIP ip s t ≤ bucketBurst :=
  Bucket.levelOf_capped _ _ _ _

/-- Only a bucket that is full again is evicted. -/
theorem Sound.level_evict_le (h : Sound s c.seconds) (hRate : 0 < ratePerIP) (hRefilled : RefilledWhenIdle conv ratePerIP)
    (ip : String) : level ratePerIP ip (s.evict conv ratePerIP c.time) c.seconds ≤ level ratePerIP ip s c.seconds := by
  cases hb : s.buckets.lookup ip with
  | none => exact (level_capped ip _ _).trans (level_of_none hb _).ge
  | some b =>
    have hSound := h ip b hb
    by_cases hIdle : (idle conv ratePerIP).toInt < elapsed c.time b.last
    · have hLong : max 0 ((idle conv ratePerIP).toInt + 1) ≤ c.time - b.last := by
        have hPast := seconds_le_iff.mp hSound.past
        have hLe := elapsed_le hPast
        omega
      have hTime : bucketBurst / ratePerIP ≤ c.seconds - seconds b.last := by
        have hSeconds := seconds_le_iff.mpr hLong
        rw [seconds_sub] at hSeconds
        exact hRefilled.trans hSeconds
      rw [level_of_some hb, hSound.level_of_refilled hRate hTime]
      exact level_capped ip _ _
    · refine (level_congr ?_ _).le
      rw [lookup_evict, hb, Option.filter_some, if_pos (by simpa using hIdle)]

theorem Sound.pays_own (h : Sound s c.seconds) (hRate : 0 < ratePerIP) :
    level ratePerIP c.ip (step conv ratePerIP s c).1 c.seconds + (if (step conv ratePerIP s c).2 then 1 else 0) ≤
      level ratePerIP c.ip s c.seconds := by
  have hPut : ∀ s' tokens, level ratePerIP c.ip (Service.put s' c.ip ⟨tokens, c.time⟩) c.seconds ≤ tokens := by
    intro s' tokens
    rw [level, lookup_put]
    exact Bucket.levelOf_just_stored _ _ _ _
  have hAllows := step_allows conv hRate s c
  generalize step conv ratePerIP s c = out at hAllows ⊢
  cases hAllows with
  | @refused b tokens hb hTokens _ =>
    have hBefore : tokens ≤ level ratePerIP c.ip s c.seconds := by
      rw [level_of_some hb, hTokens]
      exact (h c.ip b hb).refill_le_level hRate.le
    simpa using (hPut s tokens).trans hBefore
  | @taken b tokens hb hTokens _ =>
    have hBefore : tokens ≤ level ratePerIP c.ip s c.seconds := by
      rw [level_of_some hb, hTokens]
      exact (h c.ip b hb).refill_le_level hRate.le
    have hAfter := hPut s (tokens - 1)
    simp only [if_true]
    linarith
  | opened hNone =>
    have hAfter := hPut s (bucketBurst - 1)
    rw [level_of_none hNone]
    simp only [if_true]
    linarith
  | shed hNone =>
    rw [level_of_none hNone]
    simpa using level_capped c.ip _ _
  | evicted hNone =>
    have hAfter := hPut (s.evict conv ratePerIP c.time) (bucketBurst - 1)
    rw [level_of_none hNone]
    simp only [if_true]
    linarith

theorem Sound.pays_other (h : Sound s c.seconds) (hRate : 0 < ratePerIP) (hRefilled : RefilledWhenIdle conv ratePerIP)
    {ip : String} (hOther : ip ≠ c.ip) :
    level ratePerIP ip (step conv ratePerIP s c).1 c.seconds ≤ level ratePerIP ip s c.seconds := by
  have hAllows := step_allows conv hRate s c
  generalize step conv ratePerIP s c = out at hAllows ⊢
  cases hAllows with
  | refused | taken | opened => exact (level_congr (lookup_put_of_ne s _ hOther) _).le
  | shed => exact h.level_evict_le hRate hRefilled ip
  | evicted => exact (level_congr (lookup_put_of_ne _ _ hOther) _).le.trans (h.level_evict_le hRate hRefilled ip)

theorem metered (hRate : 0 < ratePerIP) (hRefilled : RefilledWhenIdle conv ratePerIP) (ip : String) :
    Metered (step conv ratePerIP) Call.seconds (fun c => c.ip = ip) bucketBurst ratePerIP Sound (level ratePerIP ip) where
  rate_nonneg := hRate.le
  later h hLe ip b hb := (h ip b hb).later hLe
  stepped h := h.stepped hRate
  nonneg h := Bucket.levelOf_nonneg (fun b hb => h ip b hb) burst_nonneg hRate.le
  capped := level_capped ip
  grows _ hLe := Bucket.levelOf_grows _ _ hRate.le hLe
  pays {s c} h := by
    rcases eq_or_ne c.ip ip with rfl | hOther
    · rw [decide_eq_true rfl, Bool.true_and]
      exact h.pays_own hRate
    · rw [decide_eq_false hOther, Bool.false_and, if_neg Bool.false_ne_true, add_zero]
      exact h.pays_other hRate hRefilled hOther.symm

/-! ## Evicted too early -/

def visitor : String := "192.0.2.1"

def latecomer : String := "192.0.2.2"

/-- Other addresses, one for each number. -/
def neighbour (i : Nat) : String := String.ofList (List.replicate (i + 1) ':')

/-- The visitor spends its tokens, its neighbours fill the map, and a new address evicts them
all: the visitor is back with a full bucket. -/
def comeback (t : Int) : List Call :=
  List.replicate 3 ⟨0, visitor⟩ ++ (List.range (maxBuckets - 1)).map (fun i => ⟨0, neighbour i⟩) ++ [⟨t, latecomer⟩] ++
    List.replicate 3 ⟨t, visitor⟩

theorem neighbour_injective {i j : Nat} (h : neighbour i = neighbour j) : i = j := by
  have hLength := congrArg List.length (String.ofList_injective h)
  simpa using hLength

theorem neighbour_ne {i : Nat} {ip : String} (h : ip.toList.head? ≠ some ':') : neighbour i ≠ ip := by
  rintro rfl
  simp [neighbour, List.replicate_succ] at h

theorem put_put (s : Service) (ip : String) (b b' : Bucket) : (s.put ip b).put ip b' = s.put ip b' := by
  rw [Service.put, Service.put, Service.put, Finmap.insert_insert]

theorem step_new (hRate : 0 < ratePerIP) (hNone : s.buckets.lookup c.ip = none) (hRoom : s.size < maxBuckets) :
    step conv ratePerIP s c = (s.put c.ip ⟨2, c.time⟩, true) := by
  have hAllows := step_allows conv hRate s c
  generalize step conv ratePerIP s c = out at hAllows ⊢
  cases hAllows with
  | refused hb | taken hb => cases hNone.symm.trans hb
  | opened => norm_num [bucketBurst]
  | shed _ hFull | evicted _ hFull => exact absurd hFull (not_le.mpr hRoom)

theorem step_same_instant (hRate : 0 < ratePerIP) {tokens : ℚ} (hb : s.buckets.lookup c.ip = some ⟨tokens, c.time⟩)
    (hSome : 1 ≤ tokens) (hCap : tokens ≤ bucketBurst) :
    step conv ratePerIP s c = (s.put c.ip ⟨tokens - 1, c.time⟩, true) := by
  have hAllows := step_allows conv hRate s c
  have hTokens : Bucket.refill bucketBurst ratePerIP ⟨tokens, c.time⟩ c.time = tokens := by
    have hZero : seconds (elapsed c.time c.time) = 0 := by simp [elapsed, seconds]
    rw [Bucket.refill, hZero, zero_mul, add_zero, min_eq_right hCap]
  generalize step conv ratePerIP s c = out at hAllows ⊢
  cases hAllows with
  | refused hb' hEq hLow =>
    cases hb.symm.trans hb'
    rw [hEq, hTokens] at hLow
    exact absurd hSome (not_le.mpr hLow)
  | taken hb' hEq =>
    cases hb.symm.trans hb'
    rw [hEq, hTokens]
  | opened hNone | shed hNone | evicted hNone => cases hNone.symm.trans hb

theorem three_admitted (hRate : 0 < ratePerIP) (conv : Conversion) {s : Service} {ip : String} (t : Int)
    (hNone : s.buckets.lookup ip = none) (hRoom : s.size < maxBuckets) :
    admitted (step conv ratePerIP) s (List.replicate 3 ⟨t, ip⟩) = List.replicate 3 ⟨t, ip⟩ ∧
      after (step conv ratePerIP) s (List.replicate 3 ⟨t, ip⟩) = s.put ip ⟨0, t⟩ := by
  have hFirst : step conv ratePerIP s ⟨t, ip⟩ = (s.put ip ⟨2, t⟩, true) := step_new hRate hNone hRoom
  have hSecond : step conv ratePerIP (s.put ip ⟨2, t⟩) ⟨t, ip⟩ = (s.put ip ⟨1, t⟩, true) := by
    rw [step_same_instant hRate (lookup_put s ip _) (by norm_num) (by norm_num [bucketBurst]), put_put]
    norm_num
  have hThird : step conv ratePerIP (s.put ip ⟨1, t⟩) ⟨t, ip⟩ = (s.put ip ⟨0, t⟩, true) := by
    rw [step_same_instant hRate (lookup_put s ip _) (by norm_num) (by norm_num [bucketBurst]), put_put]
    norm_num
  simp [List.replicate, admitted, after, hFirst, hSecond, hThird]

structure Crowded (n : Nat) (s : Service) : Prop where
  size : s.size = n + 1
  last : ∀ ip b, s.buckets.lookup ip = some b → b.last = 0
  fresh : ∀ i, n ≤ i → s.buckets.lookup (neighbour i) = none
  late : s.buckets.lookup latecomer = none

theorem crowded_visited (start : Int) : Crowded 0 ((new start).put visitor ⟨0, 0⟩) where
  size := (size_put_new (by simp [new]) _).trans (by simp [Service.size, new])
  last ip b hb := by
    by_cases hEq : ip = visitor
    · subst hEq
      cases (lookup_put _ _ _).symm.trans hb
      rfl
    · rw [lookup_put_of_ne _ _ hEq] at hb
      simp [new] at hb
  fresh i _ := by
    rw [lookup_put_of_ne _ _ (neighbour_ne (by decide))]
    simp [new]
  late := by
    rw [lookup_put_of_ne _ _ (by decide)]
    simp [new]

theorem Crowded.succ {n : Nat} (h : Crowded n s) : Crowded (n + 1) (s.put (neighbour n) ⟨2, 0⟩) where
  size := (size_put_new (h.fresh n (Nat.le_refl n)) _).trans (by rw [h.size])
  last ip b hb := by
    by_cases hEq : ip = neighbour n
    · subst hEq
      cases (lookup_put _ _ _).symm.trans hb
      rfl
    · exact h.last ip b ((lookup_put_of_ne _ _ hEq).symm.trans hb)
  fresh i hi := by
    have hNe : neighbour i ≠ neighbour n := fun hEq => Nat.ne_of_gt hi (neighbour_injective hEq)
    rw [lookup_put_of_ne _ _ hNe]
    exact h.fresh i (Nat.le_of_lt hi)
  late := by
    rw [lookup_put_of_ne _ _ (neighbour_ne (by decide)).symm]
    exact h.late

theorem crowded_after (hRate : 0 < ratePerIP) (conv : Conversion) (start : Int) {n : Nat} (hn : n < maxBuckets) :
    Crowded n (after (step conv ratePerIP) ((new start).put visitor ⟨0, 0⟩)
      ((List.range n).map (fun i => ⟨0, neighbour i⟩))) := by
  induction n with
  | zero => exact crowded_visited start
  | succ n ih =>
    have hCrowded := ih (Nat.lt_of_succ_lt hn)
    have hRoom := hCrowded.size.trans_lt hn
    rw [List.range_succ, List.map_append, after_append]
    generalize after (step conv ratePerIP) _ _ = s at hCrowded hRoom
    have hStep : step conv ratePerIP s ⟨0, neighbour n⟩ = (s.put (neighbour n) ⟨2, 0⟩, true) :=
      step_new hRate (hCrowded.fresh n (Nat.le_refl n)) hRoom
    have hAfter : after (step conv ratePerIP) s [⟨0, neighbour n⟩] = s.put (neighbour n) ⟨2, 0⟩ := congrArg Prod.fst hStep
    exact hAfter ▸ hCrowded.succ

theorem Crowded.evicted {n : Nat} (h : Crowded n s) {t : Int} (hIdle : (idle conv ratePerIP).toInt < elapsed t 0) :
    s.evict conv ratePerIP t = new t := by
  have hEmpty : (s.evict conv ratePerIP t).buckets = ∅ := by
    apply Finmap.ext_lookup
    intro ip
    rw [lookup_evict, Finmap.lookup_empty, Option.filter_eq_none_iff]
    intro b hb
    simp [h.last ip b hb, hIdle]
  rw [Service.evict] at hEmpty ⊢
  dsimp only at hEmpty
  rw [hEmpty]
  rfl

theorem Crowded.latecomer_admitted {n : Nat} (h : Crowded n s) (hRate : 0 < ratePerIP) (hFull : maxBuckets ≤ s.size) {t : Int}
    (hIdle : (idle conv ratePerIP).toInt < elapsed t 0) :
    step conv ratePerIP s ⟨t, latecomer⟩ = ((new t).put latecomer ⟨2, t⟩, true) := by
  have hAllows := step_allows conv hRate s ⟨t, latecomer⟩
  generalize step conv ratePerIP s ⟨t, latecomer⟩ = out at hAllows ⊢
  cases hAllows with
  | refused hb | taken hb => cases h.late.symm.trans hb
  | opened _ hRoom => exact absurd hFull (not_le.mpr hRoom)
  | shed _ _ hStill =>
    rw [h.evicted hIdle] at hStill
    simp [Service.size, new, maxBuckets] at hStill
  | evicted =>
    rw [h.evicted hIdle]
    norm_num [bucketBurst]

theorem six_admitted (hRate : 0 < ratePerIP) (start : Int) {t : Int} (ht : 0 ≤ t)
    (hIdle : (idle conv ratePerIP).toInt < elapsed t 0) :
    6 ≤ admittedWithin conv ratePerIP start (comeback t) visitor 0 (seconds t) := by
  have hEmpty : ∀ t ip, (new t).buckets.lookup ip = none := fun t ip => Finmap.lookup_empty ip
  have hSize : ∀ t, (new t).size = 0 := fun t => tally_empty _
  obtain ⟨hBefore, hSpent⟩ := three_admitted hRate conv 0 (hEmpty start visitor) (by rw [hSize]; decide)
  have hCrowded := crowded_after hRate conv start (n := maxBuckets - 1) (by decide)
  have hGone : ((new t).put latecomer ⟨2, t⟩).buckets.lookup visitor = none := by
    rw [lookup_put_of_ne _ _ (by decide)]
    exact hEmpty t visitor
  obtain ⟨hAgain, -⟩ := three_admitted hRate conv t hGone (by rw [size_put_new (hEmpty t latecomer), hSize]; decide)
  have hThree : ∀ t', 0 ≤ t' → t' ≤ t →
      within Call.seconds (fun c => c.ip = visitor) 0 (seconds t) (List.replicate 3 ⟨t', visitor⟩) = 3 := by
    intro t' hLow hHigh
    have hIn : 0 ≤ seconds t' ∧ seconds t' ≤ seconds t := ⟨seconds_nonneg hLow, seconds_le_iff.mpr hHigh⟩
    simp [within, Call.seconds, hIn.1, hIn.2]
  simp only [admittedWithin, comeback, admitted_append, after_append, hBefore, hSpent]
  generalize after (step conv ratePerIP) _ _ = s at hCrowded ⊢
  have hFull : maxBuckets ≤ s.size := by
    rw [hCrowded.size]
    decide
  have hLate : after (step conv ratePerIP) s [⟨t, latecomer⟩] = (new t).put latecomer ⟨2, t⟩ :=
    congrArg Prod.fst (hCrowded.latecomer_admitted hRate hFull hIdle)
  rw [hLate, hAgain]
  simp only [within, List.countP_append] at hThree ⊢
  rw [hThree 0 (le_refl 0) ht, hThree t ht (le_refl t)]
  omega

theorem idle_even (conv : Conversion) (ratePerIP : ℚ) : (idle conv ratePerIP).toInt % 2 = 0 := by
  have hSecond : (1000000000 : Int64).toInt = 1000000000 := by decide
  rw [idle, Int64.toInt_mul, hSecond, Int.bmod_def]
  omega

theorem comeback_inOrder {t : Int} (ht : 0 ≤ t) : InOrder Call.seconds (comeback t) := by
  have hLate : Lib.seconds 0 ≤ Lib.seconds t := seconds_le_iff.mpr ht
  simp only [InOrder, comeback, List.pairwise_append, List.mem_append, List.mem_replicate, List.mem_map, List.mem_singleton,
    List.pairwise_replicate, List.pairwise_map, List.pairwise_singleton]
  refine ⟨⟨⟨.inr (le_refl _), ?_, ?_⟩, trivial, ?_⟩, .inr (le_refl _), ?_⟩
  · exact List.pairwise_of_forall (fun _ _ => le_refl _)
  · rintro a ⟨-, rfl⟩ b ⟨i, -, rfl⟩
    exact le_refl _
  · rintro a (⟨-, rfl⟩ | ⟨i, -, rfl⟩) b rfl <;> exact hLate
  · rintro a ((⟨-, rfl⟩ | ⟨i, -, rfl⟩) | rfl) b ⟨-, rfl⟩
    · exact hLate
    · exact hLate
    · exact le_refl _

/-- The rate holds for an address exactly if no bucket is evicted before it is full again. -/
theorem address_rate_bounded_iff (conv : Conversion) {ratePerIP : ℚ} (hRate : 0 < ratePerIP) (start : Int) :
    ((∀ calls, InOrder Call.seconds calls → ∀ ip lo d, 0 ≤ d →
        (admittedWithin conv ratePerIP start calls ip lo d : ℚ) ≤ 3 + ratePerIP * d) ↔ RefilledWhenIdle conv ratePerIP) ∧
      ∀ calls, (after (step conv ratePerIP) (new start) calls).size ≤ maxBuckets := by
  refine ⟨⟨fun hBound => ?_, fun hRefilled calls hOrder ip lo d hLength => ?_⟩, fun calls => ?_⟩
  · by_contra hEarly
    have hEven := idle_even conv ratePerIP
    have hRange := (idle conv ratePerIP).toInt_lt
    generalize hi : (idle conv ratePerIP).toInt = i at hEven hRange
    have hIdle : (idle conv ratePerIP).toInt < elapsed (max 0 (i + 1)) 0 := by
      rw [hi, elapsed]
      omega
    have hSix := six_admitted hRate start (le_max_left 0 (i + 1)) hIdle
    have hFew := hBound _ (comeback_inOrder (le_max_left 0 (i + 1))) visitor 0 _ (seconds_nonneg (le_max_left 0 (i + 1)))
    have hSixQ : (6 : ℚ) ≤ admittedWithin conv ratePerIP start (comeback (max 0 (i + 1))) visitor 0
        (seconds (max 0 (i + 1))) := by
      exact_mod_cast hSix
    apply hEarly
    rw [RefilledWhenIdle, hi, div_le_iff₀ hRate, bucketBurst]
    linarith
  · exact (metered hRate hRefilled ip).within_le_of_initial (sound_new start) hOrder hLength
  · have hInit : (new start).size ≤ maxBuckets := by
      rw [show (new start).size = 0 from tally_empty _]
      exact Nat.zero_le _
    exact after_invariant (I := fun s : Service => s.size ≤ maxBuckets) (fun s c hSize => size_step_le hRate hSize) hInit calls

/-- A processor that keeps the low 64 bits. -/
def lowBits : Conversion where
  duration q := Int64.ofInt (truncate q)
  truncates _ hLow hHigh := Int64.toInt_ofInt_of_le hLow hHigh

/-- The float of 0.1. -/
def defaultRate : ℚ := 3602879701896397 / 2 ^ 55

/-- A refill takes a little less than 30 s, and the quotient is rounded to 30. -/
theorem rounded_default : Float64.rounded (bucketBurst / defaultRate) = 30 := by
  have hUlp : Float64.ulp (bucketBurst / defaultRate) = 2 ^ (-48 : ℤ) :=
    Float64.ulp_eq (e := 4) (by norm_num) (by norm_num [bucketBurst, defaultRate]) (by norm_num [bucketBurst, defaultRate])
  rw [Float64.rounded_eq (n := 30 * 2 ^ 48) hUlp (by norm_num [bucketBurst, defaultRate])
    (by norm_num [bucketBurst, defaultRate])]
  norm_num

theorem default_rate_holds : RefilledWhenIdle lowBits defaultRate ∧ InOrder Call.seconds (comeback 1000000001) ∧
    (admittedWithin lowBits defaultRate 0 (comeback 1000000001) visitor 0 (seconds 1000000001) : ℚ) ≤
      3 + defaultRate * seconds 1000000001 := by
  have hRate : 0 < defaultRate := by norm_num [defaultRate]
  have hRefilled : RefilledWhenIdle lowBits defaultRate := by
    rw [refilledWhenIdle_iff lowBits hRate (by rw [rounded_default]; norm_num), rounded_default]
    norm_num [bucketBurst, defaultRate]
  have hOrder : InOrder Call.seconds (comeback 1000000001) := comeback_inOrder (by norm_num)
  have hBound := (address_rate_bounded_iff lowBits hRate 0).1.mpr hRefilled _ hOrder
  exact ⟨hRefilled, hOrder, hBound visitor 0 (seconds 1000000001) (seconds_nonneg (by norm_num))⟩

theorem two_a_second_exceeded : InOrder Call.seconds (comeback 1000000001) ∧
    ¬ (admittedWithin lowBits 2 0 (comeback 1000000001) visitor 0 (seconds 1000000001) : ℚ) ≤
      3 + 2 * seconds 1000000001 := by
  have hIdle : (idle lowBits 2).toInt = 1000000000 := by decide +kernel
  have hSix : 6 ≤ admittedWithin lowBits 2 0 (comeback 1000000001) visitor 0 (seconds 1000000001) :=
    six_admitted (by norm_num) 0 (by norm_num) (by rw [hIdle]; decide)
  have hSixQ : (6 : ℚ) ≤ admittedWithin lowBits 2 0 (comeback 1000000001) visitor 0 (seconds 1000000001) := by
    exact_mod_cast hSix
  refine ⟨comeback_inOrder (by norm_num), not_le.mpr (lt_of_lt_of_le ?_ hSixQ)⟩
  norm_num [seconds]

end QuicSql.Enroll.RateLimit
