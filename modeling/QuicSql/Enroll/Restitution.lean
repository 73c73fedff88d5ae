import QuicSql.Enroll.SingleUse

/-!
# A failed enrollment gives its code back

An enrollment that fails after it has consumed its code releases it. The housekeeping of
every new code deletes the used ones, also one whose enrollment is still under way, and the
release then finds nothing. Beside the service stand the expiry of each code when it was last
consumed and the codes that a failed enrollment owes back and nobody has consumed since.
-/

namespace QuicSql.Enroll

open Authz Lib

def Call.consumed : Call → List Hash
  | .sweeping .. | .storing .. => []
  | c => c.carried

def Call.releases : Call → Option Hash
  | .unwinding hash | .releasing _ hash => some hash
  | _ => none

/-- When the code that a call consumes now will have passed its expiry. -/
def expiryOf (codes : List Code) (hash : Hash) (now : Int) : Int :=
  ((codes.find? (fun c => c.hash = hash && c.valid now)).map Code.expiresAt).getD now

structure Refunds where
  service : Service
  expiry : Hash → Int
  owed : List Hash

namespace Refunds

open Service (Action Passes Takes)
open Ledger (codeConfig rolledBack)

def consume (r : Refunds) (hash : Hash) (t : Service) : Refunds where
  service := t
  expiry := Function.update r.expiry hash (expiryOf r.service.codes hash r.service.clock)
  owed := r.owed.filter (fun h => h ≠ hash)

def answer (r : Refunds) (hash : Hash) (t : Service) : Refunds where
  service := t
  expiry := r.expiry
  owed := hash :: r.owed

def moved (r : Refunds) (t : Service) : Option Call → Option Call → Refunds
  | some (.consuming _ hash), some (.putting ..) => r.consume hash t
  | some (.unwinding hash), _ | some (.releasing _ hash), _ => r.answer hash t
  | _, _ => { r with service := t }

def next (r : Refunds) (t : Service) : Action → Refunds
  | .step i _ => r.moved t r.service.calls[i]? t.calls[i]?
  | _ => { r with service := t }

def step (cfg : Config) (r : Refunds) (a : Action) : Option Refunds :=
  (Service.step cfg r.service a).map (fun t => r.next t a)

def init (s : Service) : Refunds := ⟨s, fun _ => s.clock, []⟩

/-- A code that is owed is valid again, unless it has passed its expiry. -/
def Restored (r : Refunds) : Prop :=
  ∀ hash ∈ r.owed, codeValid r.service.codes hash r.service.clock = true ∨ r.expiry hash ≤ r.service.clock

def Answered (r : Refunds) : Action → Prop
  | .step i ok =>
    match r.service.calls[i]?.bind Call.releases with
    | some _ => ok = true
    | none => True
  | _ => True

/-- No enrollment under way has consumed a code that could still be used. -/
def Settled (s : Service) : Prop :=
  ∀ c ∈ s.calls, ∀ hash ∈ c.consumed, ∀ e ∈ s.codes, e.hash = hash → e.expiresAt ≤ s.clock

/-- Used codes are deleted only while no enrollment that consumed one is under way. -/
def Sheltered (r : Refunds) : Action → Prop
  | .step i _ =>
    match r.service.calls[i]? with
    | some (.sweeping ..) => Settled r.service
    | _ => True
  | _ => True

instance (r : Refunds) : Decidable (Restored r) :=
  inferInstanceAs (Decidable (∀ hash ∈ r.owed, _))

instance (s : Service) : Decidable (Settled s) :=
  inferInstanceAs (Decidable (∀ c ∈ s.calls, ∀ hash ∈ c.consumed, ∀ e ∈ s.codes, e.hash = hash → _))

instance (r : Refunds) : ∀ a, Decidable (Answered r a)
  | .step i ok => by
    unfold Answered
    dsimp only
    split
    all_goals infer_instance
  | .enroll .. | .delete _ | .mintCode _ | .tick _ => isTrue trivial

instance (r : Refunds) : ∀ a, Decidable (Sheltered r a)
  | .step i ok => by
    unfold Sheltered
    dsimp only
    split
    all_goals infer_instance
  | .enroll .. | .delete _ | .mintCode _ | .tick _ => isTrue trivial

/-! ## The invariant -/

def Stored (P : Code → Prop) (r : Refunds) (hash : Hash) : Prop :=
  (∃ e ∈ r.service.codes, e.hash = hash ∧ e.expiresAt = r.expiry hash ∧ P e) ∨ r.expiry hash ≤ r.service.clock

structure Kept (r : Refunds) : Prop where
  sweeps : ∀ code now, .sweeping code now ∈ r.service.calls → now ≤ r.service.clock
  held : ∀ c ∈ r.service.calls, ∀ hash ∈ c.consumed, Stored (fun _ => True) r hash
  owed : ∀ hash ∈ r.owed, Stored (fun e => e.usedAt = none) r hash

variable {cfg : Config} {r : Refunds} {t u : Service} {i : Nat} {ok : Bool} {c d : Call} {hash : Hash}

theorem Kept.restored (h : Kept r) : r.Restored := by
  intro hash hOwed
  obtain ⟨e, he, hHash, hExpiry, hUnused⟩ | hPast := h.owed hash hOwed
  · by_cases hTime : r.expiry hash ≤ r.service.clock
    · exact .inr hTime
    · refine .inl (List.any_eq_true.mpr ⟨e, he, ?_⟩)
      simp [hHash, Code.valid, hUnused, hExpiry, Int.not_le.mp hTime]
  · exact .inr hPast

theorem init_kept (s : Service) (hCalls : s.calls = []) : Kept (init s) where
  sweeps := fun _ _ hc => absurd (hCalls ▸ hc) List.not_mem_nil
  held := fun _ hc => absurd (hCalls ▸ hc) List.not_mem_nil
  owed := fun _ hOwed => absurd hOwed List.not_mem_nil

def Survives (P : Code → Prop) (codes : List Code) (e : Code) : Prop :=
  ∃ e' ∈ codes, e'.hash = e.hash ∧ e'.expiresAt = e.expiresAt ∧ P e'

theorem Stored.follow {P Q : Code → Prop} (h : Stored P r hash) {r' : Refunds}
    (hExpiry : r'.expiry hash = r.expiry hash) (hClock : r.service.clock ≤ r'.service.clock)
    (hCodes : ∀ e ∈ r.service.codes, e.hash = hash → P e →
      Survives Q r'.service.codes e ∨ e.expiresAt ≤ r'.service.clock) : Stored Q r' hash := by
  obtain ⟨e, he, hHash, hAt, hP⟩ | hPast := h
  · obtain ⟨e', he', hHash', hAt', hQ⟩ | hPast := hCodes e he hHash hP
    · exact .inl ⟨e', he', hHash'.trans hHash, by rw [hAt', hAt, hExpiry], hQ⟩
    · exact .inr (by omega)
  · exact .inr (by omega)

/-- A call moves on with no other code than it had. A code that a call has consumed and an
unused one stay in the store, or have passed their expiry. -/
theorem Kept.follow (h : Kept r) (hc : r.service.calls[i]? = some c) (hCalls : t.calls = r.service.calls.set i d)
    (hClock : t.clock = r.service.clock) (hSweep : ∀ code now, d ≠ .sweeping code now)
    (hConsumed : ∀ x ∈ d.consumed, x ∈ c.consumed)
    (hHeld : ∀ e ∈ r.service.codes, (∃ c ∈ r.service.calls, e.hash ∈ c.consumed) →
      Survives (fun _ => True) t.codes e ∨ e.expiresAt ≤ t.clock)
    (hOwed : ∀ e ∈ r.service.codes, e.usedAt = none →
      Survives (fun e => e.usedAt = none) t.codes e ∨ e.expiresAt ≤ t.clock) :
    Kept { r with service := t } := by
  have hMem := List.mem_of_getElem? hc
  refine ⟨fun code now hIn => ?_, fun x hx hash hHash => ?_, fun hash hHash => ?_⟩
  · change _ ∈ t.calls at hIn
    rw [hCalls] at hIn
    obtain hOld | hEq := List.mem_or_eq_of_mem_set hIn
    · exact hClock ▸ h.sweeps code now hOld
    · exact absurd hEq.symm (hSweep code now)
  · change x ∈ t.calls at hx
    rw [hCalls] at hx
    obtain ⟨y, hy, hHad⟩ : ∃ y ∈ r.service.calls, hash ∈ y.consumed := by
      obtain hOld | rfl := List.mem_or_eq_of_mem_set hx
      · exact ⟨x, hOld, hHash⟩
      · exact ⟨c, hMem, hConsumed hash hHash⟩
    refine (h.held y hy hash hHad).follow rfl (Int.le_of_eq hClock.symm) ?_
    rintro e he rfl -
    exact hHeld e he ⟨y, hy, hHad⟩
  · refine (h.owed hash hHash).follow rfl (Int.le_of_eq hClock.symm) ?_
    intro e he _ hUnused
    exact hOwed e he hUnused

theorem Kept.keep (h : Kept r) (hc : r.service.calls[i]? = some c) (hCalls : t.calls = r.service.calls.set i d)
    (hClock : t.clock = r.service.clock) (hSweep : ∀ code now, d ≠ .sweeping code now)
    (hConsumed : ∀ x ∈ d.consumed, x ∈ c.consumed) (hCodes : ∀ e ∈ r.service.codes, e ∈ t.codes) :
    Kept { r with service := t } := by
  refine h.follow hc hCalls hClock hSweep hConsumed (fun e he _ => ?_) (fun e he hUnused => ?_)
  · exact .inl ⟨e, hCodes e he, rfl, rfl, trivial⟩
  · exact .inl ⟨e, hCodes e he, rfl, rfl, hUnused⟩

/-- An unused code that a sweep deletes had passed its expiry when the sweep was started. -/
theorem Kept.sweep (h : Kept r) {code : Hash} {now : Int} (hc : r.service.calls[i]? = some (.sweeping code now))
    (hSettled : Settled r.service) (hCalls : t.calls = r.service.calls.set i (.storing code now))
    (hClock : t.clock = r.service.clock) (hCodes : t.codes = Enroll.sweep r.service.codes now) :
    Kept { r with service := t } := by
  have hNow := h.sweeps code now (List.mem_of_getElem? hc)
  refine h.follow hc hCalls hClock (fun _ _ hEq => by cases hEq) (fun _ hx => hx) ?_ fun e he hUnused => ?_
  · rintro e he ⟨x, hx, hIn⟩
    exact .inr (hClock ▸ hSettled x hx e.hash hIn e he rfl)
  · by_cases hTime : e.expiresAt ≤ now
    · exact .inr (by omega)
    · refine .inl ⟨e, ?_, rfl, rfl, hUnused⟩
      rw [hCodes]
      exact List.mem_filter.mpr ⟨he, by simp [Code.valid, hUnused, Int.not_le.mp hTime]⟩

theorem Survives.imp {P Q : Code → Prop} {codes : List Code} {e : Code} (h : Survives P codes e)
    (hPQ : ∀ e', P e' → Q e') : Survives Q codes e := by
  obtain ⟨e', he', hHash, hAt, hP⟩ := h
  exact ⟨e', he', hHash, hAt, hPQ e' hP⟩

theorem release_survives (codes : List Code) (hash : Hash) {e : Code} (he : e ∈ codes) :
    Survives (fun e' => e.usedAt = none ∨ e.hash = hash → e'.usedAt = none) (release codes hash) e := by
  refine ⟨_, List.mem_map_of_mem he, ?_⟩
  split
  · exact ⟨rfl, rfl, fun _ => rfl⟩
  · rename_i hOther
    exact ⟨rfl, rfl, fun hUnused => hUnused.resolve_right hOther⟩

theorem consume_survives (codes : List Code) (hash : Hash) (now : Int) {e : Code} (he : e ∈ codes) :
    Survives (fun e' => e.hash ≠ hash → e'.usedAt = e.usedAt) (Enroll.consume codes hash now) e := by
  refine ⟨_, List.mem_map_of_mem he, ?_⟩
  split
  · rename_i hSpent
    simp only [Bool.and_eq_true, decide_eq_true_eq] at hSpent
    exact ⟨rfl, rfl, fun hOther => absurd hSpent.1 hOther⟩
  · exact ⟨rfl, rfl, fun _ => rfl⟩

theorem exists_expiryOf {codes : List Code} {now : Int} (hValid : codeValid codes hash now = true) :
    ∃ e ∈ codes, e.hash = hash ∧ e.expiresAt = expiryOf codes hash now := by
  obtain ⟨e, hFound⟩ := Option.isSome_iff_exists.mp (List.find?_isSome.mpr (List.any_eq_true.mp hValid))
  have hMatch := List.find?_some hFound
  simp only [Bool.and_eq_true, decide_eq_true_eq] at hMatch
  refine ⟨e, List.mem_of_find?_eq_some hFound, hMatch.1, ?_⟩
  rw [expiryOf, hFound]
  rfl

theorem Kept.release (h : Kept r) (hc : r.service.calls[i]? = some c) (hHash : c.consumed = [hash])
    (hCalls : t.calls = r.service.calls.set i (.returned .failed)) (hClock : t.clock = r.service.clock)
    (hCodes : t.codes = Enroll.release r.service.codes hash) : Kept (r.answer hash t) := by
  have hSurvives : ∀ e ∈ r.service.codes,
      Survives (fun e' => e.usedAt = none ∨ e.hash = hash → e'.usedAt = none) t.codes e := by
    rw [hCodes]
    exact fun e he => release_survives r.service.codes hash he
  have hKept : Kept { r with service := t } := by
    refine h.follow hc hCalls hClock (fun _ _ hEq => by cases hEq) (fun _ hx => by cases hx) ?_ ?_
    · intro e he _
      exact .inl ((hSurvives e he).imp fun _ _ => trivial)
    · intro e he hUnused
      exact .inl ((hSurvives e he).imp fun _ hBack => hBack (.inl hUnused))
  refine ⟨hKept.sweeps, hKept.held, fun x hx => ?_⟩
  obtain rfl | hOld := List.mem_cons.mp hx
  · have hHeld := h.held c (List.mem_of_getElem? hc) x (hHash ▸ List.mem_singleton_self x)
    refine hHeld.follow rfl (Int.le_of_eq hClock.symm) fun e he hEq _ => ?_
    exact .inl ((hSurvives e he).imp fun _ hBack => hBack (.inr hEq))
  · exact hKept.owed x hOld

theorem Kept.consume (h : Kept r) {key : Key}
    (hCalls : t.calls = r.service.calls.set i (.putting key (some hash))) (hClock : t.clock = r.service.clock)
    (hCodes : t.codes = Enroll.consume r.service.codes hash r.service.clock)
    (hValid : codeValid r.service.codes hash r.service.clock = true) : Kept (r.consume hash t) := by
  have hSurvives : ∀ e ∈ r.service.codes, Survives (fun e' => e.hash ≠ hash → e'.usedAt = e.usedAt) t.codes e := by
    rw [hCodes]
    exact fun e he => consume_survives r.service.codes hash r.service.clock he
  have hSpent : Stored (fun _ => True) (r.consume hash t) hash := by
    obtain ⟨e, he, hHash, hAt⟩ := exists_expiryOf hValid
    obtain ⟨e', he', hHash', hAt', -⟩ := hSurvives e he
    refine .inl ⟨e', he', hHash'.trans hHash, ?_, trivial⟩
    rw [hAt', hAt]
    exact (Function.update_self hash _ r.expiry).symm
  have hMem : ∀ x ∈ t.calls, x ∈ r.service.calls ∨ x = .putting key (some hash) := by
    intro x hx
    rw [hCalls] at hx
    exact List.mem_or_eq_of_mem_set hx
  refine ⟨fun code now hIn => ?_, fun x hx y hy => ?_, fun y hy => ?_⟩
  · obtain hOld | hEq := hMem _ hIn
    · exact hClock ▸ h.sweeps code now hOld
    · cases hEq
  · by_cases hSame : y = hash
    · exact hSame ▸ hSpent
    · obtain hOld | rfl := hMem x hx
      · refine (h.held x hOld y hy).follow (Function.update_of_ne hSame ..) (Int.le_of_eq hClock.symm) ?_
        exact fun e he _ _ => .inl ((hSurvives e he).imp fun _ _ => trivial)
      · exact absurd (List.mem_singleton.mp hy) hSame
  · obtain ⟨hOld, hOther⟩ := List.mem_filter.mp hy
    have hNe : y ≠ hash := of_decide_eq_true hOther
    refine (h.owed y hOld).follow (Function.update_of_ne hNe ..) (Int.le_of_eq hClock.symm) ?_
    rintro e he rfl hUnused
    exact .inl ((hSurvives e he).imp fun _ hEq => (hEq hNe).trans hUnused)

/-! ## Steps -/

theorem consumed_subset (c : Call) : ∀ x ∈ c.consumed, x ∈ c.carried := by
  intro x hx
  cases c with
  | sweeping | storing => cases hx
  | _ => exact hx

theorem passes_consumed {s : Service} (h : Passes cfg s ok c d) : ∀ x ∈ d.consumed, x ∈ c.consumed := by
  intro x hx
  have hCarried := Ledger.passes_carried h x (consumed_subset d x hx)
  cases h with
  | unswept | unstored => cases hx
  | _ => exact hCarried

theorem takes_sweeping {s : Service} (h : Takes cfg s ok c d u) (code : Hash) (now : Int) : d ≠ .sweeping code now := by
  intro hEq
  cases h with
  | passes hPass =>
    cases hPass with
    | @notPut key code' => cases code' <;> cases hEq
    | _ => cases hEq
  | @grant key code' =>
    unfold Service.afterGrants at hEq
    split at hEq <;> cases hEq
  | @purge key code' => cases code' <;> cases hEq
  | _ => cases hEq

theorem Kept.start (h : Kept r) (hConsumed : c.consumed = []) (hSweep : ∀ code now, c = .sweeping code now → now ≤ r.service.clock) :
    Kept { r with service := r.service.start c } := by
  refine ⟨fun code now hIn => ?_, fun x hx hash hHash => ?_, h.owed⟩
  · obtain hOld | hLast := List.mem_append.mp hIn
    · exact h.sweeps code now hOld
    · exact hSweep code now (List.mem_singleton.mp hLast).symm
  · obtain hOld | hLast := List.mem_append.mp hx
    · exact h.held x hOld hash hHash
    · rw [List.mem_singleton.mp hLast, hConsumed] at hHash
      cases hHash

theorem Kept.tick (h : Kept r) (n : Nat) :
    Kept { r with service := { r.service with clock := r.service.clock + n } } := by
  have hLater : r.service.clock ≤ r.service.clock + n := by omega
  refine ⟨fun code now hIn => (h.sweeps code now hIn).trans hLater, fun x hx hash hHash => ?_, fun hash hHash => ?_⟩
  · exact (h.held x hx hash hHash).imp_right fun hPast => hPast.trans hLater
  · exact (h.owed hash hHash).imp_right fun hPast => hPast.trans hLater

theorem Kept.takes (h : Kept r) (hc : r.service.calls[i]? = some c) (hSheltered : Sheltered r (.step i ok))
    (hNot : c.releases = none) (hTakes : Takes cfg r.service ok c d u) :
    Kept (r.moved { u with calls := r.service.calls.set i d } (some c) (some d)) := by
  have hSweep := takes_sweeping hTakes
  cases hTakes with
  | passes hPass =>
    have hKept : Kept { r with service := { r.service with calls := r.service.calls.set i d } } :=
      h.keep hc rfl rfl hSweep (passes_consumed hPass) fun _ he => he
    cases hPass with
    | unreleased | unreturned => cases hNot
    | _ => exact hKept
  | consume hValid => exact h.consume rfl rfl rfl hValid
  | unwind | release => cases hNot
  | @grant key code =>
    refine h.keep hc rfl rfl hSweep (fun x hx => ?_) fun _ he => he
    exact (Ledger.afterGrants_carried key code x (consumed_subset _ x hx)).1
  | @purge key code =>
    refine h.keep hc rfl rfl hSweep (fun x hx => ?_) fun _ he => he
    cases code <;> exact hx
  | sweep =>
    rw [Sheltered, hc] at hSheltered
    exact h.sweep hc hSheltered rfl rfl rfl
  | store =>
    refine h.keep hc rfl rfl hSweep (fun _ hx => by cases hx) fun _ he => ?_
    exact List.mem_append_left _ he
  | put | add | rollback => exact h.keep hc rfl rfl hSweep (fun _ hx => hx) fun _ he => he
  | provision | delete | remove | revoke | discount =>
    exact h.keep hc rfl rfl hSweep (fun _ hx => by cases hx) fun _ he => he

theorem Kept.advance (h : Kept r) (hc : r.service.calls[i]? = some c) (hAnswered : Answered r (.step i ok))
    (hSheltered : Sheltered r (.step i ok)) (hAdvance : Service.advance cfg r.service i ok c = some t) :
    Kept (r.next t (.step i ok)) := by
  rw [Answered, hc] at hAnswered
  rw [next, hc]
  cases hReleases : c.releases with
  | some hash =>
    simp only [Option.bind_some, hReleases] at hAnswered
    subst hAnswered
    cases c with
    | unwinding | releasing =>
      cases hReleases
      cases hAdvance
      exact h.release hc rfl rfl rfl rfl
    | _ => cases hReleases
  | none =>
    obtain ⟨d, u, hTakes, rfl⟩ := Service.advance_takes hAdvance
    have hd : (r.service.calls.set i d)[i]? = some d := getElem?_set_of_some hc
    rw [hd]
    exact h.takes hc hSheltered hReleases hTakes

theorem Kept.step {a : Action} {r' : Refunds} (h : Kept r) (hGuard : Answered r a ∧ Sheltered r a)
    (hStep : step cfg r a = some r') : Kept r' := by
  obtain ⟨t, ht, rfl⟩ := Option.map_eq_some_iff.mp hStep
  cases a with
  | enroll | delete =>
    cases ht
    exact h.start rfl fun _ _ hEq => by cases hEq
  | mintCode code =>
    obtain ⟨-, ht⟩ := Option.ite_none_right_eq_some.mp ht
    cases ht
    refine h.start rfl fun _ _ hEq => ?_
    cases hEq
    exact Int.le_refl _
  | tick n =>
    cases ht
    exact h.tick n
  | step i ok =>
    obtain ⟨c, hc, hAdvance⟩ := Option.bind_eq_some_iff.mp ht
    exact h.advance hc hGuard.1 hGuard.2 hAdvance

/-- A code that a failed enrollment consumed is valid again until its expiry or its next
consumption, if no used code is deleted while the enrollment that consumed it is under way. -/
theorem failed_enrollment_restores_code (cfg : Config) (base : Policy) (table : List Row) (codes : List Code) (now : Int)
    (actions : List Action)
    (hGuard : Guarded (step cfg) (fun r a => Answered r a ∧ Sheltered r a)
      (init (Service.loadTable cfg base table codes now)) actions) :
    Always (step cfg) Restored (init (Service.loadTable cfg base table codes now)) actions := by
  have hKept := always_of_guarded (fun _ _ _ hKept hC hStep => Kept.step hKept hC hStep)
    (init_kept (Service.loadTable cfg base table codes now) rfl) hGuard
  exact hKept.mono fun _ h => h.restored

/-- The code is minted and consumed by an enrollment whose provisioning fails; `between` runs
while the provisioning is under way. -/
def failedAfter (between : List Action) : List Action :=
  [.mintCode "c", .step 0 true, .step 0 true, .enroll "a" (some "c")] ++ (rolledBack 1 true).take 9 ++ between ++
    (rolledBack 1 true).drop 9

theorem code_restored_under_clock :
    Always (step codeConfig) Restored (init (Service.loadTable codeConfig (newPolicy false) [] [] 0))
      (failedAfter [.tick 59]) :=
  failed_enrollment_restores_code codeConfig (newPolicy false) [] [] 0 _ (by decide +kernel)

/-- A second code is minted during the provisioning, and its sweep takes the first one. -/
theorem swept_code_is_burned :
    Guarded (step codeConfig) Answered (init (Service.loadTable codeConfig (newPolicy false) [] [] 0))
        (failedAfter [.mintCode "d", .step 2 true]) ∧
      ¬ Always (step codeConfig) Restored (init (Service.loadTable codeConfig (newPolicy false) [] [] 0))
        (failedAfter [.mintCode "d", .step 2 true]) := by
  refine ⟨by decide +kernel, fun hAlways => ?_⟩
  have hRun : (run (step codeConfig) (init (Service.loadTable codeConfig (newPolicy false) [] [] 0))
      (failedAfter [.mintCode "d", .step 2 true])).map (fun r => decide r.Restored) = some false := by
    decide +kernel
  obtain ⟨r, hr, hBurned⟩ := Option.map_eq_some_iff.mp hRun
  exact of_decide_eq_false hBurned (hAlways.final hr)

end Refunds

end QuicSql.Enroll
