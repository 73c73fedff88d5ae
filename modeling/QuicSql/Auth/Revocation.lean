import QuicSql.Auth.Chain

/-!
# Revocation

A revoked session is remembered until its outer deadline. As long as the clock has not
passed that deadline an entry of the session stands in the map, whatever was collected in
between; a call that started after the revocation finds it, provided that it looks, and
compares, before the deadline has passed.
-/

namespace QuicSql.Auth

open Authz Lib

namespace Minter

/-- The expiry of a late call's token is tested with one reading, its revocation with
later ones: the deadline of the session passes in none of them. `revokeOne` must be able to
store its deadline. -/
def Timely (ttl : TTL) (s : Minter) : Action → Prop
  | .step n =>
    match s.calls[n]? with
    | some (.looking _ k true _) | some (.comparing _ k true _ _) => s.clock ≤ k.minted.outer
    | some (.revokingOne _) => s.clock + ttl.idleTTL + ttl.maxTTL < 2 ^ 63
    | _ => True
  | _ => True

instance (ttl : TTL) (s : Minter) (a : Action) : Decidable (Timely ttl s a) := by
  unfold Timely
  repeat' split
  all_goals infer_instance

def Final (s : Minter) : Prop := ∀ use k now, Call.accepted use k true now ∉ s.calls

def Awaits (s : Minter) : Call → Prop
  | .begun _ k true | .looking _ k true _ => k.token.sid ∈ s.final
  | .comparing _ k true _ e => k.minted.outer ≤ e
  | .accepted _ _ true _ => False
  | .revokingSIDs sids _ => ∀ p ∈ sids, ∀ i ∈ s.issued, i.token.sid = p.1 → i.minted.outer ≤ p.2
  | _ => True

structure Remembers (s : Minter) : Prop where
  named : ∀ sid ∈ s.final, sid ∈ s.named
  names : ∀ c ∈ s.calls, ∀ sid ∈ c.names, sid ∈ s.named
  entry : ∀ i ∈ s.issued, i.token.sid ∈ s.final → s.clock ≤ i.minted.outer →
    ∃ e, s.revoked i.token.sid = some e ∧ i.minted.outer ≤ e
  calls : ∀ c ∈ s.calls, Awaits s c

variable {ttl : TTL} {s t : Minter}

/-- Tokens that were added belong to known sessions, or to ones never named before. -/
def Known (s t : Minter) : Prop :=
  ∀ i ∈ t.issued, i.token.sid ∈ s.named → ∃ k ∈ s.issued, k.token.sid = i.token.sid ∧ k.minted = i.minted

theorem Known.of_eq (hIssued : t.issued = s.issued) : Known s t :=
  fun i hi _ => ⟨i, hIssued ▸ hi, rfl, rfl⟩

theorem Awaits.mono {c : Call} (h : Awaits s c) (hNames : ∀ sid ∈ c.names, sid ∈ s.named) (hKnown : Known s t)
    (hFinal : s.final ⊆ t.final) : Awaits t c := by
  cases c with
  | begun use k late =>
    cases late with
    | false => trivial
    | true => exact hFinal h
  | looking use k late now =>
    cases late with
    | false => trivial
    | true => exact hFinal h
  | comparing use k late now e =>
    cases late with
    | false => trivial
    | true => exact h
  | accepted use k late now =>
    cases late with
    | false => trivial
    | true => exact h
  | revokingSIDs sids except =>
    intro p hp i hi hSid
    have hNamed : i.token.sid ∈ s.named := hSid ▸ hNames _ (List.mem_map_of_mem hp)
    obtain ⟨k, hk, hSidK, hMinted⟩ := hKnown i hi hNamed
    rw [← hMinted]
    exact h p hp k hk (hSidK.trans hSid)
  | refused => trivial
  | revoking k => trivial
  | collecting k now => trivial
  | revokingOne sid => trivial
  | returned => trivial

theorem init_remembers (start : Int) : Remembers (init start) where
  named := fun _ h => absurd h List.not_mem_nil
  names := fun _ h => absurd h List.not_mem_nil
  entry := fun _ h => absurd h List.not_mem_nil
  calls := fun _ h => absurd h List.not_mem_nil

/-! ## The revocation map -/

theorem remember_mem (revoked : Sid → Option Int) {sids : List (Sid × Int)} {sid : Sid}
    (hMem : sid ∈ sids.map Prod.fst) : ∃ d, (sid, d) ∈ sids ∧ remember revoked sids sid = some d := by
  obtain ⟨p, hp, hSid⟩ := List.mem_map.mp hMem
  have hSome : (sids.find? (fun q => q.1 = sid)).isSome := List.find?_isSome.mpr ⟨p, hp, decide_eq_true hSid⟩
  obtain ⟨q, hq⟩ := Option.isSome_iff_exists.mp hSome
  have hEq : q.1 = sid := by simpa using List.find?_some hq
  refine ⟨q.2, ?_, ?_⟩
  · rw [← hEq]
    exact List.mem_of_find?_eq_some hq
  · rw [remember, hq]
    rfl

theorem remember_not_mem {revoked : Sid → Option Int} {sids : List (Sid × Int)} {sid : Sid}
    (hNot : sid ∉ sids.map Prod.fst) : remember revoked sids sid = revoked sid := by
  have hNone : sids.find? (fun q => q.1 = sid) = none := by
    refine List.find?_eq_none.mpr fun p hp hEq => hNot ?_
    exact List.mem_map.mpr ⟨p, hp, of_decide_eq_true hEq⟩
  rw [remember, hNone]
  rfl

theorem collect_eq {revoked : Sid → Option Int} {now e : Int} {sid : Sid} (hEntry : revoked sid = some e)
    (hNow : now ≤ e) : collect revoked now sid = some e := by
  rw [collect, hEntry]
  exact if_pos (decide_eq_true hNow)

/-! ## What a revocation stores -/

theorem outer_le_revokedUntil {i : Issued} (h : i.Bounded ttl) : i.minted.outer ≤ i.token.revokedUntil := by
  unfold Payload.outer Payload.revokedUntil
  split
  · rename_i hZero
    rw [h.single hZero]
    omega
  · rw [h.hardExp]
    omega

theorem outer_le_deadline {i : Issued} (h : i.Bounded ttl) {now : Int} (hPast : i.time ≤ now)
    (hLow : -2 ^ 63 ≤ now) (hFits : now + ttl.idleTTL + ttl.maxTTL < 2 ^ 63) : i.minted.outer ≤ deadline ttl now := by
  have hIdle := ttl.idlePos
  have hMax := ttl.maxTTL_nonneg
  have hSum : deadline ttl now = now + (ttl.idleTTL + ttl.maxTTL) := by
    unfold deadline int64
    rw [Int.add_bmod_bmod]
    exact int64_of_range (by omega) (by omega)
  have hOuter := h.outer
  have hLife := ttl.life_le_sum
  omega

namespace Remembers

theorem quiet (h : Remembers s) (hClock : s.clock ≤ t.clock) (hRevoked : t.revoked = s.revoked)
    (hFinal : t.final = s.final) (hNamed : s.named ⊆ t.named) (hKnown : Known s t)
    (hCalls : ∀ c ∈ t.calls, c ∈ s.calls ∨ Awaits t c ∧ ∀ sid ∈ c.names, sid ∈ t.named) : Remembers t := by
  refine ⟨?_, ?_, ?_, ?_⟩
  · intro sid hSid
    exact hNamed (h.named sid (hFinal ▸ hSid))
  · intro c hc sid hSid
    rcases hCalls c hc with hOld | ⟨-, hNew⟩
    · exact hNamed (h.names c hOld sid hSid)
    · exact hNew sid hSid
  · intro i hi hSid hBefore
    rw [hFinal] at hSid
    obtain ⟨k, hk, hSidK, hMinted⟩ := hKnown i hi (h.named _ hSid)
    rw [hRevoked, ← hMinted, ← hSidK]
    exact h.entry k hk (hSidK ▸ hSid) (Int.le_trans hClock (hMinted ▸ hBefore))
  · intro c hc
    rcases hCalls c hc with hOld | ⟨hNew, -⟩
    · exact (h.calls c hOld).mono (h.names c hOld) hKnown (hFinal ▸ List.Subset.refl _)
    · exact hNew

theorem forget (h : Remembers s) {n : Nat} {revoked : Sid → Option Int} {sids : List Sid}
    (hNamed : ∀ sid ∈ sids, sid ∈ s.named)
    (hEntry : ∀ i ∈ s.issued, i.token.sid ∈ sids ++ s.final → s.clock ≤ i.minted.outer →
      ∃ e, revoked i.token.sid = some e ∧ i.minted.outer ≤ e) : Remembers (s.forget n revoked sids) := by
  have hCalls : ∀ c ∈ (s.forget n revoked sids).calls, c ∈ s.calls ∨ c = .returned :=
    fun c hc => List.mem_or_eq_of_mem_set hc
  refine ⟨?_, ?_, hEntry, ?_⟩
  · intro sid hSid
    rcases List.mem_append.mp hSid with hNew | hOld
    · exact hNamed sid hNew
    · exact h.named sid hOld
  · rintro c hc sid hSid
    rcases hCalls c hc with hOld | rfl
    · exact h.names c hOld sid hSid
    · cases hSid
  · rintro c hc
    rcases hCalls c hc with hOld | rfl
    · exact (h.calls c hOld).mono (h.names c hOld) (.of_eq rfl) (List.subset_append_right _ _)
    · trivial

theorem forgets (h : Remembers s) (hChain : Chain ttl s) {n : Nat} {c : Call} {revoked : Sid → Option Int}
    {sids : List Sid} (hc : c ∈ s.calls) (hForgets : Forgets s c revoked sids) :
    Remembers (s.forget n revoked sids) := by
  cases hForgets with
  | @revoke k now =>
    obtain ⟨hk, hNow⟩ := hChain.calls _ hc
    refine h.forget (fun sid hSid => List.mem_singleton.mp hSid ▸ hChain.named k hk) ?_
    intro i hi hSid hBefore
    rcases Classical.em (i.token.sid = k.token.sid) with hSame | hOther
    · have hMem : i.token.sid ∈ [(k.token.sid, k.token.revokedUntil)].map Prod.fst := by simp [hSame]
      obtain ⟨d, hd, hEntry⟩ := remember_mem (collect s.revoked now) hMem
      have hUntil : d = k.token.revokedUntil := by simpa [hSame] using hd
      have hMinted : i.minted = k.minted := by
        rw [hChain.one i hi k hk hSame]
      refine ⟨d, hEntry, ?_⟩
      rw [hUntil, hMinted]
      exact outer_le_revokedUntil (hChain.bounded k hk)
    · have hOld : i.token.sid ∈ s.final := by simpa [hOther] using hSid
      obtain ⟨e, hEntry, hOuter⟩ := h.entry i hi hOld hBefore
      refine ⟨e, ?_, hOuter⟩
      rw [remember_not_mem (by simpa using hOther)]
      exact collect_eq hEntry (by omega)
  | @revokeSIDs rows kept except hKept =>
    refine h.forget ?_ ?_
    · intro sid hSid
      exact h.names _ hc sid (List.map_subset Prod.fst hKept hSid)
    · intro i hi hSid hBefore
      rcases Classical.em (i.token.sid ∈ kept.map Prod.fst) with hNew | hOld
      · obtain ⟨d, hd, hEntry⟩ := remember_mem s.revoked hNew
        exact ⟨d, hEntry, h.calls _ hc _ (hKept hd) i hi rfl⟩
      · rw [remember_not_mem hOld]
        exact h.entry i hi ((List.mem_append.mp hSid).resolve_left hOld) hBefore

theorem record (h : Remembers s) {i : Issued} (hNew : i.token.sid ∉ s.named) : Remembers (s.record i) := by
  refine h.quiet (Int.le_refl _) rfl rfl (List.subset_cons_self _ _) ?_ (fun c hc => .inl hc)
  intro j hj hSid
  rcases List.mem_append.mp hj with hOld | hLast
  · exact ⟨j, hOld, rfl, rfl⟩
  · exact absurd (List.mem_singleton.mp hLast ▸ hSid) hNew

theorem start (h : Remembers s) {c : Call} (hOpening : Opening s c) : Remembers (s.start c) := by
  refine h.quiet (Int.le_refl _) rfl rfl (List.subset_append_right _ _) (.of_eq rfl) ?_
  intro d hd
  rcases List.mem_append.mp hd with hOld | hNew
  · exact .inl hOld
  · cases List.mem_singleton.mp hNew
    refine .inr ⟨?_, fun sid hSid => List.mem_append_left _ hSid⟩
    cases hOpening with
    | @use use k hk =>
      cases hLate : decide (k.token.sid ∈ s.final) with
      | false => trivial
      | true =>
        have hFinal : k.token.sid ∈ s.final := of_decide_eq_true hLate
        exact hFinal
    | revoke hk => trivial
    | revokeOne => trivial
    | revokeSIDs hRows => exact fun p hp i hi hSid => Int.le_of_eq (hRows p hp i hi hSid).symm

theorem reads (h : Remembers s) (hChain : Chain ttl s) {n : Nat} {c d : Call} (hc : s.calls[n]? = some c)
    (hTimely : Timely ttl s (.step n)) (hReads : Reads ttl s c d) : Awaits s d := by
  have hMem := List.mem_of_getElem? hc
  have hAwaits := h.calls c hMem
  rw [Timely, hc] at hTimely
  cases hReads with
  | @pass use k late hAdmits =>
    cases late with
    | false => trivial
    | true => exact hAwaits
  | @found use k late now e hEntry =>
    cases late with
    | false => trivial
    | true =>
      have hk : k ∈ s.issued := (hChain.calls _ hMem).1
      obtain ⟨e', hEntry', hOuter⟩ := h.entry k hk hAwaits hTimely
      cases hEntry.symm.trans hEntry'
      exact hOuter
  | refuse => trivial
  | revoke hAdmits => trivial
  | revokeOne =>
    rintro p hp i hi hSid
    cases List.mem_singleton.mp hp
    exact outer_le_deadline (hChain.bounded i hi) (hChain.past i hi) hChain.clock.1 hTimely

theorem clears (h : Remembers s) (hChain : Chain ttl s) {n : Nat} {c : Call} {use : Use} {k : Issued} {late : Bool}
    {now : Int} (hc : s.calls[n]? = some c) (hTimely : Timely ttl s (.step n))
    (hClears : Clears s c use k late now) : late = false := by
  have hMem := List.mem_of_getElem? hc
  have hAwaits := h.calls c hMem
  rw [Timely, hc] at hTimely
  cases late with
  | false => rfl
  | true =>
    cases hClears with
    | absent hNone =>
      have hk : k ∈ s.issued := (hChain.calls _ hMem).1
      obtain ⟨e, hEntry, -⟩ := h.entry k hk hAwaits hTimely
      cases hNone.symm.trans hEntry
    | lapsed hLapsed => exact absurd (Int.le_trans hTimely hAwaits) (Int.not_le.mpr hLapsed)

theorem names_reads (h : Remembers s) {c d : Call} (hc : c ∈ s.calls) (hReads : Reads ttl s c d) :
    ∀ sid ∈ d.names, sid ∈ s.named := by
  cases hReads with
  | pass hAdmits => exact fun _ hSid => absurd hSid List.not_mem_nil
  | found hEntry => exact fun _ hSid => absurd hSid List.not_mem_nil
  | refuse => exact fun _ hSid => absurd hSid List.not_mem_nil
  | revoke hAdmits => exact fun _ hSid => absurd hSid List.not_mem_nil
  | @revokeOne sid => exact h.names (.revokingOne sid) hc

theorem accept (h : Remembers s) {n : Nat} {use : Use} {k : Issued} {now : Int} (hk : k ∈ s.issued) :
    Remembers (accept ttl s n use k false now) := by
  refine h.quiet (Int.le_refl _) rfl rfl (List.Subset.refl _) ?_ ?_
  · intro i hi hSid
    rcases List.mem_append.mp hi with hOld | hNew
    · exact ⟨i, hOld, rfl, rfl⟩
    · cases use with
      | verify => cases hNew
      | renew =>
        cases List.mem_singleton.mp hNew
        exact ⟨k, hk, rfl, rfl⟩
      | refresh =>
        cases List.mem_singleton.mp hNew
        exact ⟨k, hk, rfl, rfl⟩
  · intro c hc
    refine (List.mem_or_eq_of_mem_set hc).imp_right ?_
    rintro rfl
    exact ⟨trivial, fun _ hSid => absurd hSid List.not_mem_nil⟩

theorem move (h : Remembers s) (hChain : Chain ttl s) {a : Action} (hTimely : Timely ttl s a)
    (hMove : Move ttl s a t) : Remembers t := by
  cases hMove with
  | tick hFits =>
    exact h.quiet (Int.le_add_of_nonneg_right (Int.natCast_nonneg _)) rfl rfl (List.Subset.refl _) (.of_eq rfl)
      (fun c hc => .inl hc)
  | mint hNew => exact h.record hNew
  | stepUp hi hNew => exact h.record hNew
  | start hOpening => exact h.start hOpening
  | reads hc hReads =>
    refine h.quiet (Int.le_refl _) rfl rfl (List.Subset.refl _) (.of_eq rfl) fun d hd => ?_
    refine (List.mem_or_eq_of_mem_set hd).imp_right ?_
    rintro rfl
    have hNames := h.names_reads (List.mem_of_getElem? hc) hReads
    exact ⟨(h.reads hChain hc hTimely hReads).mono hNames (.of_eq rfl) (List.Subset.refl _), hNames⟩
  | accept hc hClears =>
    cases h.clears hChain hc hTimely hClears
    exact h.accept (Chain.clears (hChain.calls _ (List.mem_of_getElem? hc)) hClears).1
  | forget hc hForgets => exact h.forgets hChain (List.mem_of_getElem? hc) hForgets

end Remembers

/-- Once a revocation has returned, no call that starts afterwards accepts a token of the
session, if the deadline of the session does not pass while that call is under way. -/
theorem revocation_final (ttl : TTL) (start : Int) (actions : List Action)
    (hTimely : Guarded (step ttl) (Timely ttl) (init start) actions) :
    Always (step ttl) Final (init start) actions := by
  have hAlways : Always (step ttl) (fun s => Chain ttl s ∧ Remembers s) (init start) actions := by
    refine always_of_guarded ?_ ⟨init_chain ttl start, init_remembers start⟩ hTimely
    rintro s a t ⟨hChain, hRemembers⟩ hCond hStep
    exact ⟨step_chain hChain hStep, hRemembers.move hChain hCond (step_move hStep)⟩
  refine hAlways.mono fun s hs => ?_
  intro use k now hc
  exact hs.2.calls _ hc

/-- Tokens of ten nanoseconds that are not renewed. -/
def shortTTL : TTL := ⟨10, 0, by decide, by decide, by decide, .inl rfl⟩

def plainClaims : SessClaims := ⟨tierDataOnly, scopeFull, factorPassword, 0, [], zeroTime, zeroTime⟩

theorem revoked_refused :
    Always (step shortTTL) Final (init 1)
      [.mint [7] "ann" plainClaims, .revoke 0, .step 0, .step 0, .tick 5, .use .verify 0, .step 1, .step 1, .step 1] :=
  revocation_final shortTTL 1 _ (by decide +kernel)

/-- The last instant of a session passes between the expiry test and the comparison with
the entry of its revocation. -/
theorem revoked_accepted_at_deadline :
    ¬ Always (step shortTTL) Final (init 1)
      [.mint [7] "ann" plainClaims, .revoke 0, .step 0, .step 0, .use .verify 0, .tick 10, .step 1, .step 1,
        .tick 1, .step 1] := by
  intro hAlways
  have hRun : (run (step shortTTL) (init 1)
      [.mint [7] "ann" plainClaims, .revoke 0, .step 0, .step 0, .use .verify 0, .tick 10, .step 1, .step 1,
        .tick 1, .step 1]).map Minter.calls =
      some [.returned, .accepted .verify (Issued.fresh shortTTL [7] "ann" 1 plainClaims ⟨plainClaims, 1⟩) true 11] := by
    decide +kernel
  obtain ⟨s, hs, hCalls⟩ := Option.map_eq_some_iff.mp hRun
  refine hAlways.final hs .verify (Issued.fresh shortTTL [7] "ann" 1 plainClaims ⟨plainClaims, 1⟩) 11 ?_
  rw [hCalls]
  exact List.mem_cons_of_mem _ (List.mem_singleton_self _)

end Minter

end QuicSql.Auth
