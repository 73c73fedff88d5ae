import QuicSql.Lib.Meter
import QuicSql.Lib.Pool

/-!
# Admission control

A request costs its principal a token and occupies a place of its database until it is
released. The closures that release are kept beside the limiter: each of them acts once,
however often it is called.
-/

namespace QuicSql.Limits

open Lib

structure Limiter where
  rps : ℚ
  burst : ℚ
  perDBMax : Int
  buckets : String → Option Bucket
  inflight : String → Int

/-- The burst of one second, at least one request. -/
def new (perPrincipalRPS : ℚ) (maxConcurrentPerDB : Int) : Limiter where
  rps := perPrincipalRPS
  burst := if perPrincipalRPS < 1 then 1 else perPrincipalRPS
  perDBMax := maxConcurrentPerDB
  buckets := fun _ => none
  inflight := fun _ => 0

inductive Reason where
  | rate
  | busy
deriving DecidableEq, Repr

namespace Limiter

def put (l : Limiter) (principal : String) (b : Bucket) : Limiter :=
  { l with buckets := Function.update l.buckets principal (some b) }

def takeToken (l : Limiter) (now : Int) (principal : String) : Limiter × Bool :=
  if l.rps ≤ 0 then (l, true)
  else
    let b := (l.buckets principal).getD ⟨l.burst, now⟩
    let tokens := b.tokens + seconds (elapsed now b.last) * l.rps
    let tokens := if l.burst < tokens then l.burst else tokens
    if tokens < 1 then (l.put principal ⟨tokens, now⟩, false) else (l.put principal ⟨tokens - 1, now⟩, true)

def add (l : Limiter) (db : String) (n : Int) : Limiter :=
  { l with inflight := Function.update l.inflight db (l.inflight db + n) }

/-- A busy database has cost the token. -/
def allow (l : Limiter) (now : Int) (principal db : String) : Limiter × Option Reason :=
  match l.takeToken now principal with
  | (l', false) => (l', some .rate)
  | (l', true) => if 0 < l'.perDBMax ∧ l'.perDBMax ≤ l'.inflight db then (l', some .busy) else (l'.add db 1, none)

def release (l : Limiter) (db : String) : Limiter := if 0 < l.inflight db then l.add db (-1) else l

end Limiter

structure Release where
  db : String
  called : Bool
deriving DecidableEq, Repr

structure State where
  limiter : Limiter
  releases : List Release

inductive Request where
  | allow (principal db : String)
  | release (k : Nat)
deriving DecidableEq, Repr

structure Event where
  time : Int
  request : Request
deriving DecidableEq, Repr

def Event.seconds (e : Event) : ℚ := Lib.seconds e.time

def Event.asks (principal : String) (e : Event) : Bool :=
  match e.request with
  | .allow p _ => p = principal
  | .release _ => false

def init (perPrincipalRPS : ℚ) (maxConcurrentPerDB : Int) : State := ⟨new perPrincipalRPS maxConcurrentPerDB, []⟩

def step (s : State) (e : Event) : State × Option Reason :=
  match e.request with
  | .allow principal db =>
    match s.limiter.allow e.time principal db with
    | (l, none) => (⟨l, s.releases ++ [⟨db, false⟩]⟩, none)
    | (l, some reason) => (⟨l, s.releases⟩, some reason)
  | .release k =>
    match s.releases[k]? with
    | some ⟨db, false⟩ => (⟨s.limiter.release db, s.releases.set k ⟨db, true⟩⟩, none)
    | _ => (s, none)

/-- The step with whether the rate let the request pass. -/
def metering (s : State) (e : Event) : State × Bool := ((step s e).1, decide ((step s e).2 ≠ some .rate))

/-- The requests of a principal in a window that were not rejected for their rate. -/
def passedWithin (s : State) (events : List Event) (principal : String) (lo d : ℚ) : Nat :=
  within Event.seconds (Event.asks principal) lo d (admitted metering s events)

/-- The requests on a database that were admitted and are not released. -/
def State.outstanding (s : State) (db : String) : Nat := s.releases.countP (fun r => r.db = db && !r.called)

/-! ## Tokens -/

variable {l : Limiter} {now : Int} {principal db : String}

def Limiter.found (l : Limiter) (now : Int) (principal : String) : Bucket := (l.buckets principal).getD ⟨l.burst, now⟩

/-- What a token costs where there is a rate. -/
inductive Takes (l : Limiter) (now : Int) (principal : String) : Limiter × Bool → Prop where
  | refused {tokens : ℚ} : tokens = (l.found now principal).refill l.burst l.rps now → tokens < 1 →
      Takes l now principal (l.put principal ⟨tokens, now⟩, false)
  | taken {tokens : ℚ} : tokens = (l.found now principal).refill l.burst l.rps now → 1 ≤ tokens →
      Takes l now principal (l.put principal ⟨tokens - 1, now⟩, true)

theorem takeToken_takes (hRate : 0 < l.rps) (now : Int) (principal : String) :
    Takes l now principal (l.takeToken now principal) := by
  have hRefill : ∀ tokens : ℚ, (if l.burst < tokens then l.burst else tokens) = min l.burst tokens := by
    intro tokens
    split
    · rename_i hLt
      exact (min_eq_left hLt.le).symm
    · rename_i hLe
      exact (min_eq_right (not_lt.mp hLe)).symm
  unfold Limiter.takeToken
  rw [if_neg (not_le.mpr hRate)]
  simp only [hRefill]
  split
  · rename_i hLow
    exact .refused rfl hLow
  · rename_i hEnough
    exact .taken rfl (not_lt.mp hEnough)

theorem takeToken_cases (l : Limiter) (now : Int) (principal : String) :
    l.takeToken now principal = (l, true) ∨ ∃ b ok, l.takeToken now principal = (l.put principal b, ok) := by
  rcases le_or_gt l.rps 0 with hFree | hRate
  · exact .inl (if_pos hFree)
  · have hTakes := takeToken_takes hRate now principal
    generalize l.takeToken now principal = out at hTakes ⊢
    cases hTakes with
    | refused | taken => exact .inr ⟨_, _, rfl⟩

/-! ## The step -/

/-- What a step does; `l` is the limiter after the token. -/
inductive Steps (s : State) (e : Event) : State × Option Reason → Prop where
  | limited {principal db : String} {l : Limiter} : e.request = .allow principal db →
      s.limiter.takeToken e.time principal = (l, false) → Steps s e (⟨l, s.releases⟩, some .rate)
  | busy {principal db : String} {l : Limiter} : e.request = .allow principal db →
      s.limiter.takeToken e.time principal = (l, true) → Steps s e (⟨l, s.releases⟩, some .busy)
  | admitted {principal db : String} {l : Limiter} : e.request = .allow principal db →
      s.limiter.takeToken e.time principal = (l, true) → (0 < l.perDBMax → l.inflight db < l.perDBMax) →
      Steps s e (⟨l.add db 1, s.releases ++ [⟨db, false⟩]⟩, none)
  | released {k : Nat} {db : String} : e.request = .release k → s.releases[k]? = some ⟨db, false⟩ →
      Steps s e (⟨s.limiter.release db, s.releases.set k ⟨db, true⟩⟩, none)
  | again {k : Nat} : e.request = .release k → Steps s e (s, none)

theorem step_steps (s : State) (e : Event) : Steps s e (step s e) := by
  unfold step
  split
  · rename_i principal db hRequest
    cases hTake : s.limiter.takeToken e.time principal with
    | mk l ok =>
      cases ok with
      | false =>
        simp only [Limiter.allow, hTake]
        exact .limited hRequest hTake
      | true =>
        simp only [Limiter.allow, hTake]
        by_cases hBusy : 0 < l.perDBMax ∧ l.perDBMax ≤ l.inflight db
        · rw [if_pos hBusy]
          exact .busy hRequest hTake
        · rw [if_neg hBusy]
          exact .admitted hRequest hTake (fun hCap => not_le.mp fun hFull => hBusy ⟨hCap, hFull⟩)
  · rename_i k hRequest
    split
    · rename_i db hOpen
      exact .released hRequest hOpen
    · exact .again hRequest

/-! ## Requests in flight -/

structure Counted (maxPerDB : Int) (s : State) : Prop where
  perDBMax : s.limiter.perDBMax = maxPerDB
  inflight : ∀ db, s.limiter.inflight db = s.outstanding db
  bounded : 0 < maxPerDB → ∀ db, s.limiter.inflight db ≤ maxPerDB

theorem counted_init (rps : ℚ) (maxPerDB : Int) : Counted maxPerDB (init rps maxPerDB) where
  perDBMax := rfl
  inflight _ := rfl
  bounded hCap _ := hCap.le

variable {s : State} {maxPerDB : Int}

theorem Counted.token (h : Counted maxPerDB s) {ok : Bool} (hTake : s.limiter.takeToken now principal = (l, ok)) :
    Counted maxPerDB ⟨l, s.releases⟩ := by
  rcases takeToken_cases s.limiter now principal with hSame | ⟨b, ok', hPut⟩
  · cases hSame.symm.trans hTake
    exact h
  · cases hPut.symm.trans hTake
    exact ⟨h.perDBMax, h.inflight, h.bounded⟩

theorem Counted.occupy (h : Counted maxPerDB s) (hRoom : 0 < s.limiter.perDBMax → s.limiter.inflight db < s.limiter.perDBMax) :
    Counted maxPerDB ⟨s.limiter.add db 1, s.releases ++ [⟨db, false⟩]⟩ where
  perDBMax := h.perDBMax
  inflight db' := by
    have hOld := h.inflight db'
    simp only [State.outstanding, List.countP_append] at hOld ⊢
    rcases eq_or_ne db' db with rfl | hOther
    · simp [Limiter.add, hOld]
    · simp [Limiter.add, hOld, Function.update_of_ne hOther, hOther.symm]
  bounded hCap db' := by
    rw [h.perDBMax] at hRoom
    rcases eq_or_ne db' db with rfl | hOther
    · have hLess := hRoom hCap
      simp only [Limiter.add, Function.update_self]
      omega
    · simp only [Limiter.add, Function.update_of_ne hOther]
      exact h.bounded hCap db'

theorem Counted.release (h : Counted maxPerDB s) {k : Nat} (hOpen : s.releases[k]? = some ⟨db, false⟩) :
    Counted maxPerDB ⟨s.limiter.release db, s.releases.set k ⟨db, true⟩⟩ := by
  have hCount : ∀ db', (s.releases.set k ⟨db, true⟩).countP (fun r => r.db = db' && !r.called) +
      (decide (db = db')).toNat = s.outstanding db' := by
    intro db'
    have hSet := countP_set_add (p := fun r : Release => r.db = db' && !r.called) (b := ⟨db, true⟩) hOpen
    simpa [State.outstanding] using hSet
  have hPos : 0 < s.limiter.inflight db := by
    have hMine := hCount db
    rw [h.inflight db]
    simp only [decide_true, Bool.toNat_true] at hMine
    omega
  rw [Limiter.release, if_pos hPos]
  refine ⟨h.perDBMax, fun db' => ?_, fun hCap db' => ?_⟩
  · have hOld := h.inflight db'
    have hNew := hCount db'
    rcases eq_or_ne db' db with rfl | hOther
    · simp only [decide_true, Bool.toNat_true] at hNew
      simp only [Limiter.add, Function.update_self, State.outstanding]
      omega
    · simp only [decide_eq_false hOther.symm, Bool.toNat_false] at hNew
      simp only [Limiter.add, Function.update_of_ne hOther, State.outstanding]
      omega
  · have hOld := h.bounded hCap db'
    rcases eq_or_ne db' db with rfl | hOther
    · simp only [Limiter.add, Function.update_self]
      omega
    · simp only [Limiter.add, Function.update_of_ne hOther]
      exact hOld

theorem Counted.step (h : Counted maxPerDB s) (e : Event) : Counted maxPerDB (step s e).1 := by
  have hSteps := step_steps s e
  generalize Limits.step s e = out at hSteps ⊢
  cases hSteps with
  | limited _ hTake | busy _ hTake => exact h.token hTake
  | admitted _ hTake hRoom => exact (h.token hTake).occupy hRoom
  | released _ hOpen => exact h.release hOpen
  | again => exact h

/-! ## The rate of a principal -/

def level (rps burst : ℚ) (principal : String) (s : State) (t : ℚ) : ℚ :=
  Bucket.levelOf burst rps (s.limiter.buckets principal) t

structure Sound (rps burst : ℚ) (s : State) (t : ℚ) : Prop where
  rps : s.limiter.rps = rps
  burst : s.limiter.burst = burst
  buckets : ∀ principal b, s.limiter.buckets principal = some b → b.Sound t

theorem sound_init (rps : ℚ) (maxPerDB : Int) (t : ℚ) : Sound rps (init rps maxPerDB).limiter.burst (init rps maxPerDB) t where
  rps := rfl
  burst := rfl
  buckets principal b hb := by cases hb

variable {rps burst t : ℚ} {e : Event}

theorem Sound.found (h : Sound rps burst s (seconds now)) (hBurst : 0 ≤ burst) (principal : String) :
    (s.limiter.found now principal).Sound (seconds now) ∧
      (s.limiter.found now principal).level burst rps (seconds now) = level rps burst principal s (seconds now) := by
  cases hb : s.limiter.buckets principal with
  | none =>
    rw [Limiter.found, level, hb, h.burst]
    refine ⟨⟨hBurst, le_refl _⟩, ?_⟩
    simp [Bucket.level, Bucket.levelOf]
  | some b =>
    rw [Limiter.found, level, hb]
    exact ⟨h.buckets principal b hb, rfl⟩

theorem Sound.put (h : Sound rps burst s t) {b : Bucket} (hb : b.Sound t) (principal : String) (releases : List Release) :
    Sound rps burst ⟨s.limiter.put principal b, releases⟩ t where
  rps := h.rps
  burst := h.burst
  buckets principal' b' hb' := by
    rcases eq_or_ne principal' principal with rfl | hOther
    · cases (Function.update_self _ _ _).symm.trans hb'
      exact hb
    · exact h.buckets principal' b' ((Function.update_of_ne hOther _ _).symm.trans hb')

theorem level_put (s : State) (releases : List Release) (principal : String) (tokens : ℚ) :
    level rps burst principal ⟨s.limiter.put principal ⟨tokens, now⟩, releases⟩ (seconds now) ≤ tokens := by
  simp only [level, Limiter.put, Function.update_self]
  exact Bucket.levelOf_just_stored _ _ _ _

theorem level_put_of_ne (s : State) (releases : List Release) (b : Bucket) {principal principal' : String}
    (h : principal' ≠ principal) :
    level rps burst principal' ⟨s.limiter.put principal b, releases⟩ t = level rps burst principal' s t := by
  simp only [level, Limiter.put, Function.update_of_ne h]

theorem Sound.token (h : Sound rps burst s (seconds now)) (hRate : 0 < rps) (hBurst : 0 ≤ burst) {ok : Bool}
    (hTake : s.limiter.takeToken now principal = (l, ok)) (releases : List Release) :
    Sound rps burst ⟨l, releases⟩ (seconds now) ∧
      ∀ p, level rps burst p ⟨l, releases⟩ (seconds now) + (if decide (principal = p) && ok then 1 else 0) ≤
        level rps burst p s (seconds now) := by
  have hTakes := takeToken_takes (h.rps.symm ▸ hRate) now principal
  rw [hTake] at hTakes
  obtain ⟨hFound, hLevel⟩ := h.found hBurst principal
  have hNonneg := hFound.refill_nonneg hBurst hRate.le
  have hLe := (hFound.refill_le_level hRate.le).trans_eq hLevel
  cases hTakes with
  | @refused tokens hTokens _ =>
    rw [h.rps, h.burst] at hTokens
    refine ⟨h.put ⟨hTokens ▸ hNonneg, le_refl _⟩ principal releases, fun p => ?_⟩
    rw [Bool.and_false, if_neg Bool.false_ne_true, add_zero]
    rcases eq_or_ne p principal with rfl | hOther
    · exact (level_put s releases p tokens).trans (hTokens ▸ hLe)
    · exact (level_put_of_ne s releases _ hOther).le
  | @taken tokens hTokens hEnough =>
    rw [h.rps, h.burst] at hTokens
    refine ⟨h.put ⟨sub_nonneg.mpr hEnough, le_refl _⟩ principal releases, fun p => ?_⟩
    rcases eq_or_ne p principal with rfl | hOther
    · have hAfter : level rps burst p ⟨s.limiter.put p ⟨tokens - 1, now⟩, releases⟩ (seconds now) ≤ tokens - 1 :=
        level_put s releases p (tokens - 1)
      rw [← hTokens] at hLe
      simp only [decide_true, Bool.and_true, if_true]
      linarith
    · rw [decide_eq_false hOther.symm, Bool.false_and, if_neg Bool.false_ne_true, add_zero]
      exact (level_put_of_ne s releases _ hOther).le

theorem Sound.step (h : Sound rps burst s e.seconds) (hRate : 0 < rps) (hBurst : 0 ≤ burst) :
    Sound rps burst (metering s e).1 e.seconds ∧ ∀ p, level rps burst p (metering s e).1 e.seconds +
      (if e.asks p && (metering s e).2 then 1 else 0) ≤ level rps burst p s e.seconds := by
  have hSteps := step_steps s e
  unfold metering
  generalize Limits.step s e = out at hSteps ⊢
  cases hSteps with
  | limited hRequest hTake | busy hRequest hTake =>
    obtain ⟨hSound, hPays⟩ := h.token hRate hBurst hTake s.releases
    refine ⟨hSound, fun p => ?_⟩
    simpa [Event.asks, hRequest, Event.seconds] using hPays p
  | @admitted principal db l hRequest hTake _ =>
    obtain ⟨hSound, hPays⟩ := h.token hRate hBurst hTake (s.releases ++ [⟨db, false⟩])
    refine ⟨⟨hSound.rps, hSound.burst, hSound.buckets⟩, fun p => ?_⟩
    simpa [Event.asks, hRequest, Event.seconds, level, Limiter.add] using hPays p
  | @released k db hRequest _ =>
    have hSame : (s.limiter.release db).buckets = s.limiter.buckets ∧ (s.limiter.release db).rps = s.limiter.rps ∧
        (s.limiter.release db).burst = s.limiter.burst := by
      unfold Limiter.release
      split <;> exact ⟨rfl, rfl, rfl⟩
    obtain ⟨hBuckets, hRps, hBurst⟩ := hSame
    refine ⟨⟨hRps.trans h.rps, hBurst.trans h.burst, hBuckets ▸ h.buckets⟩, fun p => ?_⟩
    simp [Event.asks, hRequest, level, hBuckets]
  | again hRequest =>
    refine ⟨h, fun p => ?_⟩
    simp [Event.asks, hRequest]

theorem metered (hRate : 0 < rps) (hBurst : 0 ≤ burst) (principal : String) :
    Metered metering Event.seconds (Event.asks principal) burst rps (Sound rps burst) (level rps burst principal) where
  rate_nonneg := hRate.le
  later h hLe := ⟨h.rps, h.burst, fun principal b hb => (h.buckets principal b hb).later hLe⟩
  stepped h := (h.step hRate hBurst).1
  nonneg h := Bucket.levelOf_nonneg (fun b hb => h.buckets principal b hb) hBurst hRate.le
  capped _ _ := Bucket.levelOf_capped _ _ _ _
  grows _ hLe := Bucket.levelOf_grows _ _ hRate.le hLe
  pays h := (h.step hRate hBurst).2 principal

theorem burst_init (rps : ℚ) (maxPerDB : Int) : (init rps maxPerDB).limiter.burst = max rps 1 := by
  change (if rps < 1 then 1 else rps) = max rps 1
  split
  · rename_i hLow
    exact (max_eq_right hLow.le).symm
  · rename_i hHigh
    exact (max_eq_left (not_lt.mp hHigh)).symm

/-- A principal passes the rate no more often than its burst and its rate allow, and a database
has exactly the requests in flight that were admitted and not released. -/
theorem admission_bounds (rps : ℚ) (maxPerDB : Int) (events : List Event) :
    (0 < rps → InOrder Event.seconds events → ∀ principal lo d, 0 ≤ d →
      (passedWithin (init rps maxPerDB) events principal lo d : ℚ) ≤ max rps 1 + rps * d) ∧
    ∀ db, (after metering (init rps maxPerDB) events).limiter.inflight db =
        (after metering (init rps maxPerDB) events).outstanding db ∧
      (0 < maxPerDB → (after metering (init rps maxPerDB) events).limiter.inflight db ≤ maxPerDB) := by
  constructor
  · intro hRate hOrder principal lo d hLength
    have hBurst : 0 ≤ max rps 1 := le_max_of_le_right zero_le_one
    have hSound : ∀ t, Sound rps (max rps 1) (init rps maxPerDB) t := by
      intro t
      rw [← burst_init rps maxPerDB]
      exact sound_init rps maxPerDB t
    exact (metered hRate hBurst principal).within_le_of_initial hSound hOrder hLength
  · intro db
    have hCounted : Counted maxPerDB (after metering (init rps maxPerDB) events) :=
      after_invariant (fun s e h => h.step e) (counted_init rps maxPerDB) events
    exact ⟨hCounted.inflight db, fun hCap => hCounted.bounded hCap db⟩

def scripted : List Event :=
  [⟨0, .allow "app" "db"⟩, ⟨1000000000, .allow "app" "db"⟩, ⟨2000000000, .allow "app" "db"⟩, ⟨2000000000, .release 0⟩,
    ⟨2000000000, .release 0⟩]

/-- Half a request a second, and one place: the second request is rejected for its rate, the
third for the place, and it has cost its token. -/
theorem admission_bounds_scripted : (0 : ℚ) < 1 / 2 ∧ InOrder Event.seconds scripted ∧
    passedWithin (init (1 / 2) 1) scripted "app" 0 2 = 2 ∧ (2 : ℚ) ≤ max (1 / 2) 1 + 1 / 2 * 2 := by
  have hOrder : InOrder Event.seconds scripted := by
    rw [InOrder]
    decide +kernel
  have hTwo : passedWithin (init (1 / 2) 1) scripted "app" 0 2 = 2 := by decide +kernel
  have hBound := (admission_bounds (1 / 2) 1 scripted).1 (by norm_num) hOrder "app" 0 2 (by norm_num)
  rw [hTwo] at hBound
  exact ⟨by norm_num, hOrder, hTwo, hBound⟩

end QuicSql.Limits
