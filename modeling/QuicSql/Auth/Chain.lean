import QuicSql.Auth.Minter

/-!
# Renewal chains

All tokens of a session are extensions of the one it was minted with: they differ in the
sliding expiry only, which never passes the end of the session. Every call holds a token
that was issued and a reading that is not ahead of the clock.
-/

namespace QuicSql.Auth

open Authz Lib

/-- What a token owes to the mint of its session. -/
structure Issued.Bounded (ttl : TTL) (i : Issued) : Prop where
  stored : i.token.Stored
  same : SameSession i.minted i.token
  exp : i.token.exp ≤ i.time + ttl.life
  outer : i.minted.outer ≤ i.time + ttl.life
  single : i.minted.hardExp = 0 → i.token = i.minted
  unlimited : ttl.maxTTL = 0 → i.minted.hardExp = 0

def Issued.SameMint (i j : Issued) : Prop := i = { j with token := i.token }

namespace Issued.SameMint

variable {i j k : Issued}

theorem refl (i : Issued) : i.SameMint i := rfl

theorem symm (h : i.SameMint j) : j.SameMint i := by
  rw [SameMint, h]

theorem trans (hij : i.SameMint j) (hjk : j.SameMint k) : i.SameMint k := by
  rw [SameMint, hij, hjk]

end Issued.SameMint

variable {ttl : TTL}

theorem TTL.maxTTL_nonneg (ttl : TTL) : 0 ≤ ttl.maxTTL := by
  have hIdle := ttl.idlePos
  rcases ttl.ordered with hZero | hLe <;> omega

theorem TTL.idle_le_life (ttl : TTL) : ttl.idleTTL ≤ ttl.life := by
  have hOrdered := ttl.ordered
  unfold TTL.life
  split <;> omega

theorem TTL.max_le_life (ttl : TTL) : ttl.maxTTL ≤ ttl.life := by
  have hIdle := ttl.idlePos
  unfold TTL.life
  split <;> omega

theorem TTL.life_le_sum (ttl : TTL) : ttl.life ≤ ttl.idleTTL + ttl.maxTTL := by
  have hIdle := ttl.idlePos
  have hMax := ttl.maxTTL_nonneg
  unfold TTL.life
  split <;> omega

theorem mint_exp (ttl : TTL) (sid : Sid) (principal : String) {now : Int} (c : SessClaims) (hNow : -2 ^ 63 ≤ now) :
    (mint ttl sid principal now c).exp ≤ now + ttl.idleTTL := by
  have hIdle := ttl.idlePos
  exact int64_le (by omega)

theorem mint_hardExp_zero {ttl : TTL} (sid : Sid) (principal : String) (now : Int) (c : SessClaims)
    (hMax : ttl.maxTTL = 0) : (mint ttl sid principal now c).hardExp = 0 := by
  have hNot : ¬ 0 < ttl.maxTTL := by omega
  unfold mint
  rw [if_neg hNot]
  rfl

theorem mint_hardExp_le {ttl : TTL} (sid : Sid) (principal : String) {now : Int} (c : SessClaims)
    (hNow : -2 ^ 63 ≤ now) (hMax : 0 < ttl.maxTTL) :
    (mint ttl sid principal now c).hardExp ≤ now + ttl.maxTTL := by
  have hNotZero : now + ttl.maxTTL ≠ zeroTime := by
    unfold zeroTime
    omega
  have hHard : (mint ttl sid principal now c).hardExp = int64 (now + ttl.maxTTL) := by
    unfold mint issue
    rw [if_pos hMax]
    exact if_neg hNotZero
  rw [hHard]
  exact int64_le (by omega)

theorem mint_outer (ttl : TTL) (sid : Sid) (principal : String) {now : Int} (c : SessClaims) (hNow : -2 ^ 63 ≤ now) :
    (mint ttl sid principal now c).outer ≤ now + ttl.life := by
  have hExp := mint_exp ttl sid principal c hNow
  have hIdle := ttl.idle_le_life
  have hMax := ttl.max_le_life
  unfold Payload.outer
  split
  · omega
  · rename_i hRenewable
    have hPos : 0 < ttl.maxTTL := by
      have hNonneg := ttl.maxTTL_nonneg
      have hNe : ttl.maxTTL ≠ 0 := fun hZero => hRenewable (mint_hardExp_zero sid principal now c hZero)
      omega
    have hHard := mint_hardExp_le sid principal c hNow hPos
    omega

namespace Issued.Bounded

theorem fresh (sid : Sid) (principal : String) {now : Int} (c : SessClaims) (root : Fresh) (hNow : -2 ^ 63 ≤ now) :
    (Issued.fresh ttl sid principal now c root).Bounded ttl where
  stored := issue_stored _ _ _ _ _
  same := .refl _
  exp := Int.le_trans (mint_exp ttl sid principal c hNow) (Int.add_le_add_left ttl.idle_le_life now)
  outer := mint_outer ttl sid principal c hNow
  single := fun _ => rfl
  unlimited := mint_hardExp_zero sid principal now c

variable {i : Issued}

theorem hardExp (h : i.Bounded ttl) : i.token.hardExp = i.minted.hardExp := by
  rw [h.same]

theorem extend (h : i.Bounded ttl) {now : Int} (hNow : -2 ^ 63 ≤ now) (hRenewable : i.token.hardExp ≠ 0) :
    Issued.Bounded ttl { i with token := i.token.extend ttl now } where
  stored := issue_stored _ _ _ _ _
  same := h.same.trans (h.stored.sameSession_extend ttl now)
  exp := by
    have hOuter := h.outer
    rw [Payload.outer, if_neg (h.hardExp ▸ hRenewable), ← h.hardExp] at hOuter
    change (i.token.extend ttl now).exp ≤ i.time + ttl.life
    rw [h.stored.extend_exp hNow]
    omega
  outer := h.outer
  single := fun hZero => absurd (h.hardExp.trans hZero) hRenewable
  unlimited := h.unlimited

end Issued.Bounded

namespace Minter

/-- A call works on an issued token, and its reading passed the expiry test. -/
def CallOk (ttl : TTL) (s : Minter) : Call → Prop
  | .begun _ k _ | .revoking k => k ∈ s.issued
  | .looking use k _ now | .comparing use k _ now _ | .accepted use k _ now =>
    k ∈ s.issued ∧ -2 ^ 63 ≤ now ∧ k.token.admits ttl now use = true
  | .collecting k now => k ∈ s.issued ∧ now ≤ s.clock
  | _ => True

structure Chain (ttl : TTL) (s : Minter) : Prop where
  clock : -2 ^ 63 ≤ s.clock ∧ s.clock < 2 ^ 63
  bounded : ∀ i ∈ s.issued, i.Bounded ttl
  past : ∀ i ∈ s.issued, i.time ≤ s.clock
  named : ∀ i ∈ s.issued, i.token.sid ∈ s.named
  one : ∀ i ∈ s.issued, ∀ j ∈ s.issued, i.token.sid = j.token.sid → i.SameMint j
  calls : ∀ c ∈ s.calls, CallOk ttl s c

variable {s t : Minter}

theorem CallOk.mono {c : Call} (h : CallOk ttl s c) (hIssued : s.issued ⊆ t.issued) (hClock : s.clock ≤ t.clock) :
    CallOk ttl t c := by
  cases c with
  | begun use k late => exact hIssued h
  | looking use k late now => exact ⟨hIssued h.1, h.2⟩
  | comparing use k late now e => exact ⟨hIssued h.1, h.2⟩
  | accepted use k late now => exact ⟨hIssued h.1, h.2⟩
  | refused => trivial
  | revoking k => exact hIssued h
  | collecting k now => exact ⟨hIssued h.1, Int.le_trans h.2 hClock⟩
  | revokingOne sid => trivial
  | revokingSIDs sids except => trivial
  | returned => trivial

theorem init_chain (ttl : TTL) (start : Int) : Chain ttl (init start) where
  clock := int64_range start
  bounded := fun _ hi => absurd hi List.not_mem_nil
  past := fun _ hi => absurd hi List.not_mem_nil
  named := fun _ hi => absurd hi List.not_mem_nil
  one := fun _ hi => absurd hi List.not_mem_nil
  calls := fun _ hc => absurd hc List.not_mem_nil

namespace Chain

theorem tick (h : Chain ttl s) {d : Nat} (hFits : s.clock + d < 2 ^ 63) :
    Chain ttl { s with clock := s.clock + d } where
  clock := ⟨Int.le_trans h.clock.1 (by dsimp only; omega), hFits⟩
  bounded := h.bounded
  past := fun i hi => Int.le_trans (h.past i hi) (by dsimp only; omega)
  named := h.named
  one := h.one
  calls := fun c hc => (h.calls c hc).mono (List.Subset.refl _) (by dsimp only; omega)

theorem record (h : Chain ttl s) {i : Issued} (hBounded : i.Bounded ttl) (hTime : i.time ≤ s.clock)
    (hNew : i.token.sid ∉ s.named) : Chain ttl (s.record i) := by
  have hMem : ∀ j ∈ (s.record i).issued, j ∈ s.issued ∨ j = i := by
    intro j hj
    simpa [Minter.record] using hj
  have hApart : ∀ j ∈ s.issued, j.token.sid ≠ i.token.sid := fun j hj hEq => hNew (hEq ▸ h.named j hj)
  refine ⟨h.clock, ?_, ?_, ?_, ?_, ?_⟩
  · rintro j hj
    rcases hMem j hj with hOld | rfl
    exacts [h.bounded j hOld, hBounded]
  · rintro j hj
    rcases hMem j hj with hOld | rfl
    exacts [h.past j hOld, hTime]
  · rintro j hj
    rcases hMem j hj with hOld | rfl
    exacts [List.mem_cons_of_mem _ (h.named j hOld), List.mem_cons_self]
  · rintro j hj k hk hSid
    rcases hMem j hj with hOld | rfl
    · rcases hMem k hk with hOld' | rfl
      exacts [h.one j hOld k hOld' hSid, absurd hSid (hApart j hOld)]
    · rcases hMem k hk with hOld' | rfl
      exacts [absurd hSid.symm (hApart k hOld'), .refl _]
  · exact fun c hc => (h.calls c hc).mono (List.subset_append_left _ _) (Int.le_refl _)

theorem start (h : Chain ttl s) {c : Call} (hOpening : Opening s c) : Chain ttl (s.start c) := by
  refine ⟨h.clock, h.bounded, h.past, fun i hi => List.mem_append_right _ (h.named i hi), h.one, ?_⟩
  intro d hd
  rcases List.mem_append.mp hd with hOld | hNew
  · exact (h.calls d hOld).mono (List.Subset.refl _) (Int.le_refl _)
  · cases List.mem_singleton.mp hNew
    cases hOpening with
    | use hk => exact hk
    | revoke hk => exact hk
    | revokeOne => trivial
    | revokeSIDs hRows => trivial

theorem reads {c d : Call} (h : Chain ttl s) (hCall : CallOk ttl s c) (hReads : Reads ttl s c d) : CallOk ttl s d := by
  cases hReads with
  | pass hAdmits => exact ⟨hCall, h.clock.1, hAdmits⟩
  | found hEntry => exact hCall
  | refuse => trivial
  | revoke hAdmits => exact ⟨hCall, Int.le_refl _⟩
  | revokeOne => trivial

theorem clears {c : Call} {use : Use} {k : Issued} {late : Bool} {now : Int} (hCall : CallOk ttl s c)
    (hClears : Clears s c use k late now) :
    k ∈ s.issued ∧ -2 ^ 63 ≤ now ∧ k.token.admits ttl now use = true := by
  cases hClears with
  | absent hNone => exact hCall
  | lapsed hLate => exact hCall

theorem callsSet {n : Nat} {c : Call} (h : Chain ttl s) (hIssued : s.issued ⊆ t.issued)
    (hClock : s.clock = t.clock) (hCalls : t.calls = s.calls.set n c) (hCall : CallOk ttl t c) :
    ∀ d ∈ t.calls, CallOk ttl t d := by
  rw [hCalls]
  intro d hd
  rcases List.mem_or_eq_of_mem_set hd with hOld | rfl
  · exact (h.calls d hOld).mono hIssued (Int.le_of_eq hClock)
  · exact hCall

theorem extendIssued (h : Chain ttl s) (hClock : t.clock = s.clock) (hNamed : t.named = s.named)
    (hBounded : ∀ i ∈ t.issued, i.Bounded ttl)
    (hKnown : ∀ i ∈ t.issued, ∃ k ∈ s.issued, i.token.sid = k.token.sid ∧ i.SameMint k)
    (hCalls : ∀ c ∈ t.calls, CallOk ttl t c) : Chain ttl t := by
  refine ⟨hClock ▸ h.clock, hBounded, ?_, ?_, ?_, hCalls⟩
  · intro i hi
    obtain ⟨k, hk, -, hSame⟩ := hKnown i hi
    rw [hSame, hClock]
    exact h.past k hk
  · intro i hi
    obtain ⟨k, hk, hSid, -⟩ := hKnown i hi
    rw [hSid, hNamed]
    exact h.named k hk
  · intro i hi j hj hSid
    obtain ⟨k, hk, hSidK, hSameK⟩ := hKnown i hi
    obtain ⟨l, hl, hSidL, hSameL⟩ := hKnown j hj
    have hOne := h.one k hk l hl (hSidK.symm.trans (hSid.trans hSidL))
    exact (hSameK.trans hOne).trans hSameL.symm

theorem goto (h : Chain ttl s) {n : Nat} {c : Call} (hCall : CallOk ttl s c) : Chain ttl (s.goto n c) :=
  ⟨h.clock, h.bounded, h.past, h.named, h.one, h.callsSet (List.Subset.refl _) rfl rfl hCall⟩

theorem accept (h : Chain ttl s) {n : Nat} {use : Use} {k : Issued} {late : Bool} {now : Int}
    (hk : k ∈ s.issued) (hNow : -2 ^ 63 ≤ now) (hAdmits : k.token.admits ttl now use = true) :
    Chain ttl (accept ttl s n use k late now) := by
  have hSub : s.issued ⊆ (Minter.accept ttl s n use k late now).issued := List.subset_append_left _ _
  have hMem : ∀ i ∈ (Minter.accept ttl s n use k late now).issued,
      i ∈ s.issued ∨ use ≠ .verify ∧ i = { k with token := k.token.extend ttl now } := by
    intro i hi
    refine (List.mem_append.mp hi).imp_right fun hNew => ?_
    cases use with
    | verify => cases hNew
    | renew => exact ⟨by decide, List.mem_singleton.mp hNew⟩
    | refresh => exact ⟨by decide, List.mem_singleton.mp hNew⟩
  refine h.extendIssued rfl rfl ?_ ?_ (h.callsSet hSub rfl rfl ⟨hSub hk, hNow, hAdmits⟩)
  · rintro i hi
    rcases hMem i hi with hOld | ⟨hUse, rfl⟩
    · exact h.bounded i hOld
    · exact (h.bounded k hk).extend hNow (Payload.admits_hardExp hUse hAdmits)
  · rintro i hi
    rcases hMem i hi with hOld | ⟨-, rfl⟩
    · exact ⟨i, hOld, rfl, .refl i⟩
    · exact ⟨k, hk, rfl, rfl⟩

theorem move (h : Chain ttl s) {a : Action} (hMove : Move ttl s a t) : Chain ttl t := by
  cases hMove with
  | tick hFits => exact h.tick hFits
  | mint hNew => exact h.record (.fresh _ _ _ _ h.clock.1) (Int.le_refl _) hNew
  | stepUp hi hNew => exact h.record (.fresh _ _ _ _ h.clock.1) (Int.le_refl _) hNew
  | start hOpening => exact h.start hOpening
  | reads hc hReads => exact h.goto (h.reads (h.calls _ (List.mem_of_getElem? hc)) hReads)
  | accept hc hClears =>
    obtain ⟨hk, hNow, hAdmits⟩ := clears (h.calls _ (List.mem_of_getElem? hc)) hClears
    exact h.accept hk hNow hAdmits
  | forget hc hForgets =>
    exact ⟨h.clock, h.bounded, h.past, h.named, h.one, h.callsSet (List.Subset.refl _) rfl rfl trivial⟩

end Chain

theorem step_chain {a : Action} (h : Chain ttl s) (hStep : step ttl s a = some t) : Chain ttl t :=
  h.move (step_move hStep)

end Minter

end QuicSql.Auth
