import QuicSql.Auth.Chain

/-!
# Step-up

A step-up and a renewal hand on what the fresh mint of a session recorded: the tier, the
scope, the strict factors and when they were presented. The destructive hold is handed on
if it fits into a token.
-/

namespace QuicSql.Auth

open Authz Lib

structure Issued.Rooted (i : Issued) : Prop where
  time : 0 < i.root.time ∧ i.root.time < 2 ^ 63
  past : i.root.time ≤ i.time
  authTime : i.token.authTime = i.root.time
  factors : i.token.factors &&& strictFactors = i.root.claims.factors &&& strictFactors
  tier : i.token.tier = i.root.claims.tier
  scope : i.token.scope = i.root.claims.scope
  hold : i.root.claims.scope = scopeReduced → 0 < i.root.claims.notBefore → i.token.notBefore = i.root.claims.notBefore

structure Fresh.Authorizes (root : Fresh) (now : Int) : Prop where
  factor : root.claims.factors &&& strictFactors ≠ 0
  recent : now - root.time ≤ 10 * minute
  owner : tierOwner ≤ root.claims.tier
  hold : root.claims.scope = scopeReduced → root.claims.notBefore ≤ now

variable {ttl : TTL} {i : Issued}

theorem defaulted_eq (now : Int) (c : SessClaims) :
    defaulted now c = { c with authTime := if c.authTime = zeroTime then now else c.authTime } := by
  unfold defaulted
  split <;> rfl

theorem mint_claims (ttl : TTL) (sid : Sid) (principal : String) (now : Int) (c : SessClaims) :
    (mint ttl sid principal now c).tier = c.tier ∧ (mint ttl sid principal now c).scope = c.scope ∧
      (mint ttl sid principal now c).factors = c.factors ∧
      (mint ttl sid principal now c).notBefore = unixNanoOrZero c.notBefore ∧
      (mint ttl sid principal now c).authTime = unixNanoOrZero (if c.authTime = zeroTime then now else c.authTime) := by
  rw [mint, defaulted_eq]
  exact ⟨rfl, rfl, rfl, rfl, rfl⟩

theorem or_and_strict {f add : Factor} (hAdd : add &&& strictFactors = 0) :
    (f ||| add) &&& strictFactors = f &&& strictFactors := by
  refine UInt16.eq_of_toBitVec_eq ?_
  rw [UInt16.toBitVec_and, UInt16.toBitVec_or, BitVec.and_or_distrib_right, ← UInt16.toBitVec_and add, hAdd]
  exact BitVec.or_zero

theorem unixNanoOrZero_of_pos {t : Int} (hPos : 0 < t) (hFits : t < 2 ^ 63) : unixNanoOrZero t = t := by
  have hSet : t ≠ zeroTime := by
    unfold zeroTime
    omega
  rw [unixNanoOrZero, if_neg hSet]
  exact int64_of_range (by omega) hFits

theorem timeFromNano_of_pos {n : Int} (hPos : 0 < n) : timeFromNano n = n := by
  have hNe : n ≠ 0 := by omega
  exact if_neg hNe

namespace Issued.Rooted

theorem fresh {sid : Sid} {principal : String} {now : Int} {c : SessClaims} (hUnset : c.authTime = zeroTime)
    (hPos : 0 < now) (hFits : now < 2 ^ 63) (hHold : c.scope = scopeReduced → c.notBefore < 2 ^ 63) :
    (Issued.fresh ttl sid principal now c ⟨c, now⟩).Rooted := by
  obtain ⟨hTier, hScope, hFactors, hBefore, hAuth⟩ := mint_claims ttl sid principal now c
  refine ⟨⟨hPos, hFits⟩, Int.le_refl _, ?_, congrArg (· &&& strictFactors) hFactors, hTier, hScope, ?_⟩
  · rw [if_pos hUnset] at hAuth
    exact hAuth.trans (unixNanoOrZero_of_pos hPos hFits)
  · intro hReduced hLater
    exact hBefore.trans (unixNanoOrZero_of_pos hLater (hHold hReduced))

theorem assurance_authTime (h : i.Rooted) : i.token.claims.assurance.authTime = i.root.time := by
  change timeFromNano i.token.authTime = i.root.time
  rw [h.authTime]
  exact timeFromNano_of_pos h.time.1

theorem stepUp (h : i.Rooted) (hStored : i.token.Stored) {sid : Sid} {principal : String} {now : Int} {add : Factor}
    {credID : List UInt8} (hNow : i.time ≤ now) (hAdd : add &&& strictFactors = 0) :
    (Issued.fresh ttl sid principal now (Auth.stepUp i.token.claims.assurance add credID) i.root).Rooted := by
  obtain ⟨hTier, hScope, hFactors, hBefore, hAuth⟩ :=
    mint_claims ttl sid principal now (Auth.stepUp i.token.claims.assurance add credID)
  have hTime : (Auth.stepUp i.token.claims.assurance add credID).authTime = i.root.time := h.assurance_authTime
  have hSet : ¬ (i.root.time : Int) = zeroTime := by
    have hPos := h.time.1
    unfold zeroTime
    omega
  refine ⟨h.time, Int.le_trans h.past hNow, ?_, ?_, hTier.trans h.tier, hScope.trans h.scope, ?_⟩
  · rw [hTime, if_neg hSet] at hAuth
    exact hAuth.trans (unixNanoOrZero_of_pos h.time.1 h.time.2)
  · change (mint ttl sid principal now _).factors &&& strictFactors = i.root.claims.factors &&& strictFactors
    rw [hFactors, ← h.factors]
    exact or_and_strict hAdd
  · intro hReduced hLater
    have hKept := unixNanoOrZero_timeFromNano hStored.notBefore.1 hStored.notBefore.2
    exact hBefore.trans (hKept.trans (h.hold hReduced hLater))

theorem extend (h : i.Rooted) (hStored : i.token.Stored) (ttl : TTL) (now : Int) :
    Issued.Rooted { i with token := i.token.extend ttl now } := by
  have hSame := hStored.sameSession_extend ttl now
  refine ⟨h.time, h.past, ?_, ?_, ?_, ?_, ?_⟩ <;> dsimp only <;> rw [hSame]
  · exact h.authTime
  · exact h.factors
  · exact h.tier
  · exact h.scope
  · exact h.hold

theorem authorizes (h : i.Rooted) {action : ActionClass} {now : Int}
    (hAction : action = .credentialMgmt ∨ action = .destructive) (hNow : i.time ≤ now)
    (hGate : requireAssurance (some i.token.claims.assurance) action .zero now = .ok ()) : i.root.Authorizes now := by
  have hOwner : requireOwner i.token.claims.assurance action AssurancePolicy.zero.withDefaults now = .ok () := by
    rcases hAction with rfl | rfl <;> exact hGate
  obtain ⟨hTier, hScope, hFactors, hSub⟩ := requireOwner_ok hOwner
  have hPositive := h.time.1
  have hPast := h.past
  refine ⟨?_, ?_, ?_, ?_⟩
  · rw [zero_need] at hFactors
    rw [← h.factors]
    exact hFactors
  · rw [h.assurance_authTime] at hSub
    exact sub_le_window (by decide) hSub
  · rw [← h.tier]
    exact hTier
  · intro hReduced
    rcases Int.lt_or_le 0 i.root.claims.notBefore with hLater | hEarly
    · have hBefore := hScope (h.scope.trans hReduced)
      change timeFromNano i.token.notBefore ≤ now at hBefore
      rw [h.hold hReduced hLater, timeFromNano_of_pos hLater] at hBefore
      exact hBefore
    · exact Int.le_trans hEarly (by omega)

end Issued.Rooted

namespace Minter

/-- Fresh mints present their factors after the epoch, with a hold that can be stored, and
step-ups add no strict factor. -/
def Presents (s : Minter) : Action → Prop
  | .mint _ _ c => c.authTime = zeroTime ∧ 0 < s.clock ∧ (c.scope = scopeReduced → c.notBefore < 2 ^ 63)
  | .stepUp _ _ add _ => add &&& strictFactors = 0
  | _ => True

instance (s : Minter) (a : Action) : Decidable (Presents s a) := by
  unfold Presents
  split <;> infer_instance

/-- Every token that verifies and passes the gate of an owner's action goes back to a fresh
mint that authorizes it. -/
def Authorized (ttl : TTL) (s : Minter) : Prop :=
  ∀ i ∈ s.issued, ∀ action, action = .credentialMgmt ∨ action = .destructive →
    i.token.admits ttl s.clock .verify = true →
    requireAssurance (some i.token.claims.assurance) action .zero s.clock = .ok () → i.root.Authorizes s.clock

variable {s t : Minter}

theorem rooted_move (hChain : Chain ttl s) (h : ∀ i ∈ s.issued, i.Rooted) {a : Action} (hPresents : Presents s a)
    (hMove : Move ttl s a t) : ∀ i ∈ t.issued, i.Rooted := by
  cases hMove with
  | tick hFits => exact h
  | mint hNew =>
    intro i hi
    rcases List.mem_append.mp hi with hOld | hLast
    · exact h i hOld
    · rw [List.mem_singleton.mp hLast]
      exact .fresh hPresents.1 hPresents.2.1 hChain.clock.2 hPresents.2.2
  | @stepUp k j sid add credID hj hNew =>
    intro i hi
    rcases List.mem_append.mp hi with hOld | hLast
    · exact h i hOld
    · rw [List.mem_singleton.mp hLast]
      exact (h j hj).stepUp (hChain.bounded j hj).stored (hChain.past j hj) hPresents
  | start hOpening => exact h
  | reads hc hReads => exact h
  | @accept n c use k late now hc hClears =>
    have hk := (Chain.clears (hChain.calls _ (List.mem_of_getElem? hc)) hClears).1
    have hExtended := (h k hk).extend (hChain.bounded k hk).stored ttl now
    intro i hi
    rcases List.mem_append.mp hi with hOld | hLast
    · exact h i hOld
    · cases use with
      | verify => cases hLast
      | renew => exact List.mem_singleton.mp hLast ▸ hExtended
      | refresh => exact List.mem_singleton.mp hLast ▸ hExtended
  | forget hc hForgets => exact h

/-- Strict factors are as old as the fresh mint that presented them. -/
theorem stale_factors_not_revived (ttl : TTL) (start : Int) (actions : List Action)
    (hPresents : Guarded (step ttl) Presents (init start) actions) :
    Always (step ttl) (Authorized ttl) (init start) actions := by
  have hAlways : Always (step ttl) (fun s => Chain ttl s ∧ ∀ i ∈ s.issued, i.Rooted) (init start) actions := by
    refine always_of_guarded ?_ ⟨init_chain ttl start, fun _ hi => absurd hi List.not_mem_nil⟩ hPresents
    rintro s a t ⟨hChain, hRooted⟩ hCond hStep
    exact ⟨step_chain hChain hStep, rooted_move hChain hRooted hCond (step_move hStep)⟩
  refine hAlways.mono fun s hs => ?_
  obtain ⟨hChain, hRooted⟩ := hs
  intro i hi action hAction _ hGate
  exact (hRooted i hi).authorizes hAction (hChain.past i hi) hGate

def slidingTTL : TTL := ⟨15 * minute, 720 * minute, by decide, by decide, by decide, .inr (by decide)⟩

/-- A session of reduced scope from a recovery code, held until `notBefore`. -/
def recoveryClaims (notBefore : Instant) : SessClaims :=
  ⟨tierOwner, scopeReduced, factorRecovery, 0, [], zeroTime, notBefore⟩

theorem stepped_up_recovery_authorized :
    Always (step slidingTTL) (Authorized slidingTTL) (init 1700000000000000000)
      [.mint [7] "u_ann" (recoveryClaims 1700003600000000000), .stepUp 0 [8] factorOTP [], .use .renew 1, .step 0,
        .step 0, .tick 3600000000000] :=
  stale_factors_not_revived slidingTTL 1700000000000000000 _ (by decide +kernel)

def year2300 : Instant := 10413792000000000000

/-- A hold until then is stored as one that ended long ago. -/
theorem far_hold_forgotten :
    ¬ Always (step slidingTTL) (Authorized slidingTTL) (init 1700000000000000000)
      [.mint [7] "u_ann" (recoveryClaims year2300)] := by
  intro hAlways
  have hRun : (run (step slidingTTL) (init 1700000000000000000) [.mint [7] "u_ann" (recoveryClaims year2300)]).map
      (fun s => (s.clock, s.issued)) =
      some (1700000000000000000, [Issued.fresh slidingTTL [7] "u_ann" 1700000000000000000 (recoveryClaims year2300)
        ⟨recoveryClaims year2300, 1700000000000000000⟩]) := by
    decide +kernel
  obtain ⟨s, hs, hFacts⟩ := Option.map_eq_some_iff.mp hRun
  obtain ⟨hClock, hIssued⟩ := Prod.mk.inj hFacts
  have hAuthorized := hAlways.final hs
  rw [Authorized, hClock, hIssued] at hAuthorized
  have hRoot := hAuthorized _ (List.mem_singleton_self _) .destructive (.inr rfl) (by decide +kernel) (by decide +kernel)
  exact absurd (hRoot.hold rfl) (by decide)

end Minter

end QuicSql.Auth
