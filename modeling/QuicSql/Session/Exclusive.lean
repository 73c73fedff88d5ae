import QuicSql.Lib.Pool
import QuicSql.Session.Moves

/-!
# Batons are honoured once, streams are exclusive

A session is busy exactly while a request has it, and nothing but that request
takes a busy session out of the store. Every accepted resume moves the
generation on, so no baton is accepted twice.
-/

namespace QuicSql.Sessions

open Lib

variable {codec : Codec} {s t : State} {c c' : Call} {i : Nat} {choice : Choice} {st st' : Store}

/-- How many requests are between their Open or Resume and their Baton or Close on
the session with this id. -/
def State.inFlight (s : State) (id : SessionId) : Nat :=
  s.calls.countP (fun c => match c with
    | .serving p => (s.store.heap p).id = id
    | _ => false)

structure BatonSafe (s : State) : Prop where
  once : (s.resumes.map (fun e => (e.id, e.gen))).Nodup
  single : ∀ id, s.inFlight id ≤ 1
  kept : ∀ p, Call.serving p ∈ s.calls → s.store.sessions.lookup (s.store.heap p).id = some p
  bound : ∀ e ∈ s.resumes, e.session.id = e.id ∧ e.session.gen = e.gen ∧
    e.session.dbName = e.db ∧ e.session.principal = e.principal
  unexpired : ∀ e ∈ s.resumes, e.now - e.session.lastUsed ≤ s.store.ttl ∧
    e.now - e.session.created ≤ s.store.maxLife

def State.genBelow (codec : Codec) (s : State) : Option Call → Bool
  | some (.resume baton db principal) =>
    match (s.store.resume codec baton db principal).2 with
    | .ok p => (s.store.heap p).gen + 1 < 2 ^ 64
    | .error _ => true
  | _ => true

def hasSession : Option Call → Bool
  | some (.serving _) => true
  | _ => false

/-- What is assumed of the environment: ids are never reused, generations stay below
the machine bound, and a request closes its session only while it has it. -/
def Disciplined (codec : Codec) (s : State) : Action → Prop
  | .step _ (.generated id) => ∀ p, p < s.store.nextPtr → (s.store.heap p).id ≠ id
  | .step i .next => s.genBelow codec s.calls[i]? = true
  | .step i .close => hasSession s.calls[i]? = true
  | _ => True

instance (codec : Codec) (s : State) : ∀ act, Decidable (Disciplined codec s act)
  | .step _ (.generated id) =>
    inferInstanceAs (Decidable (∀ p, p < s.store.nextPtr → (s.store.heap p).id ≠ id))
  | .step i .next => inferInstanceAs (Decidable (s.genBelow codec s.calls[i]? = true))
  | .step i .close => inferInstanceAs (Decidable (hasSession s.calls[i]? = true))
  | .step _ (.pinned _) | .step _ (.fail _) | .step _ (.range _) | .step _ .peek | .step _ .baton
  | .call _ | .teardown _ | .tick _ => inferInstanceAs (Decidable True)

/-! ## The invariant -/

structure Exclusive (s : State) : Prop where
  live : ∀ id p, s.store.sessions.lookup id = some p → p < s.store.nextPtr ∧ (s.store.heap p).id = id
  ids : ∀ p q, p < s.store.nextPtr → q < s.store.nextPtr →
    (s.store.heap p).id = (s.store.heap q).id → p = q
  flight : ∀ p, Call.serving p ∈ s.calls →
    s.store.sessions.lookup (s.store.heap p).id = some p ∧ (s.store.heap p).busy = true
  one : ∀ p, s.calls.countP (Call.serves p) ≤ 1
  past : ∀ e ∈ s.resumes, ∃ p, p < s.store.nextPtr ∧ (s.store.heap p).id = e.id ∧
    e.gen < (s.store.heap p).gen
  once : (s.resumes.map (fun e => (e.id, e.gen))).Nodup
  bound : ∀ e ∈ s.resumes, e.session.id = e.id ∧ e.session.gen = e.gen ∧
    e.session.dbName = e.db ∧ e.session.principal = e.principal
  unexpired : ∀ e ∈ s.resumes, e.now - e.session.lastUsed ≤ s.store.ttl ∧
    e.now - e.session.created ≤ s.store.maxLife

theorem Exclusive.named (hEx : Exclusive s) : Named s.store := ⟨hEx.live, hEx.ids⟩

/-- Sessions may have left the store, but none that a remaining request has. -/
structure Shrinks (s t : State) : Prop where
  heap : t.store.heap = s.store.heap
  nextPtr : t.store.nextPtr = s.store.nextPtr
  ttl : t.store.ttl = s.store.ttl
  maxLife : t.store.maxLife = s.store.maxLife
  resumes : t.resumes = s.resumes
  live : ∀ id p, t.store.sessions.lookup id = some p → s.store.sessions.lookup id = some p
  calls : ∀ p, Call.serving p ∈ t.calls → Call.serving p ∈ s.calls
  kept : ∀ p, Call.serving p ∈ t.calls → (s.store.heap p).busy = true →
    s.store.sessions.lookup (s.store.heap p).id = some p →
    t.store.sessions.lookup (s.store.heap p).id = some p
  one : ∀ p, t.calls.countP (Call.serves p) ≤ s.calls.countP (Call.serves p)

theorem Exclusive.of_shrinks (hEx : Exclusive s) (h : Shrinks s t) : Exclusive t where
  live id p hLookup := by
    rw [h.nextPtr, h.heap]
    exact hEx.live id p (h.live id p hLookup)
  ids := by
    rw [h.nextPtr, h.heap]
    exact hEx.ids
  flight p hp := by
    obtain ⟨hLookup, hBusy⟩ := hEx.flight p (h.calls p hp)
    rw [h.heap]
    exact ⟨h.kept p hp hBusy hLookup, hBusy⟩
  one p := (h.one p).trans (hEx.one p)
  past := by
    rw [h.resumes, h.nextPtr, h.heap]
    exact hEx.past
  once := by
    rw [h.resumes]
    exact hEx.once
  bound := by
    rw [h.resumes]
    exact hEx.bound
  unexpired := by
    rw [h.resumes, h.ttl, h.maxLife]
    exact hEx.unexpired

/-! ## What the steps do to it -/

theorem Evicts.keeps_busy {id : SessionId} {p : Ptr} (h : Evicts st st')
    (hLookup : st.sessions.lookup id = some p) (hBusy : (st.heap p).busy = true) :
    st'.sessions.lookup id = some p := by
  induction h with
  | refl => exact hLookup
  | @close st st' id' q hq hIdle _ ih =>
    apply ih
    · have hNe : id ≠ id' := by
        rintro rfl
        rw [hLookup] at hq
        rw [← Option.some.inj hq, hBusy] at hIdle
        cases hIdle
      rw [closeLocked_sessions, Finmap.lookup_erase_ne hNe]
      exact hLookup
    · rw [closeLocked_heap]
      exact hBusy

theorem serving_mem_of_set (hc : s.calls[i]? = some c) (hServes : ∀ p, c'.serves p = c.serves p) {p : Ptr}
    (hp : Call.serving p ∈ s.calls.set i c') : Call.serving p ∈ s.calls := by
  rcases List.mem_or_eq_of_mem_set hp with hp | rfl
  · exact hp
  · have hServing : c.serves p = true := by
      rw [← hServes]
      simp [Call.serves]
    cases c with
    | serving q =>
      obtain rfl : q = p := by simpa [Call.serves] using hServing
      exact List.mem_of_getElem? hc
    | _ => cases hServing

theorem serving_others {p : Ptr} (hOne : s.calls.countP (Call.serves p) ≤ 1) (hc : s.calls[i]? = some (.serving p))
    (hServes : ∀ q, c' ≠ .serving q) {q : Ptr} (hq : Call.serving q ∈ s.calls.set i c') :
    q ≠ p ∧ Call.serving q ∈ s.calls := by
  have hAll : ∀ d ∈ s.calls.set i c', d = .serving q → q ≠ p ∧ Call.serving q ∈ s.calls := by
    apply forall_mem_set_of_unique (Q := fun d => d = .serving q → q ≠ p ∧ Call.serving q ∈ s.calls) hc
      (by simp [Call.serves]) hOne
    · rintro d hd hFree rfl
      refine ⟨?_, hd⟩
      rintro rfl
      simp [Call.serves] at hFree
    · intro hEq
      exact absurd hEq (hServes q)
  exact hAll _ hq rfl

theorem Shrinks.of_evicts (hc : s.calls[i]? = some c) (hServes : ∀ p, c'.serves p = c.serves p)
    (hEvicts : Evicts s.store st') : Shrinks s { s with store := st', calls := s.calls.set i c' } where
  heap := hEvicts.frame.heap
  nextPtr := hEvicts.frame.nextPtr
  ttl := hEvicts.frame.ttl
  maxLife := hEvicts.frame.maxLife
  resumes := rfl
  live := hEvicts.frame.live
  calls _ hp := serving_mem_of_set hc hServes hp
  kept _ _ hBusy hLookup := hEvicts.keeps_busy hLookup hBusy
  one p := countP_set_le hc (fun h => by rwa [hServes] at h)

theorem Shrinks.of_counters {nextRef : Ref} {released : Ref → Nat} (hc : s.calls[i]? = some c)
    (hSessions : st'.sessions = s.store.sessions) (hHeap : st'.heap = s.store.heap)
    (hNext : st'.nextPtr = s.store.nextPtr) (hTtl : st'.ttl = s.store.ttl)
    (hMaxLife : st'.maxLife = s.store.maxLife) (hServes : ∀ p, c'.serves p = c.serves p) :
    Shrinks s ⟨st', s.calls.set i c', nextRef, released, s.resumes⟩ where
  heap := hHeap
  nextPtr := hNext
  ttl := hTtl
  maxLife := hMaxLife
  resumes := rfl
  live id p hLookup := by rwa [← hSessions]
  calls _ hp := serving_mem_of_set hc hServes hp
  kept p _ _ hLookup := by
    change st'.sessions.lookup _ = _
    rw [hSessions]
    exact hLookup
  one p := countP_set_le hc (fun h => by rwa [hServes] at h)

theorem Shrinks.of_close (hEx : Exclusive s) {p : Ptr} (hc : s.calls[i]? = some (.serving p)) :
    Shrinks s { s with store := s.store.close p, calls := s.calls.set i (.closed p) } := by
  have hFrame := evictFrame_closeLocked s.store (s.store.heap p).id
  refine ⟨hFrame.heap, hFrame.nextPtr, hFrame.ttl, hFrame.maxLife, rfl, hFrame.live, ?_, ?_, ?_⟩
  · intro q hq
    exact (serving_others (hEx.one p) hc (by simp) hq).2
  · intro q hq _ hLookup
    have hOther := (serving_others (hEx.one p) hc (by simp) hq).1
    have hNe : (s.store.heap q).id ≠ (s.store.heap p).id := by
      intro hId
      rw [hId, (hEx.flight p (List.mem_of_getElem? hc)).1] at hLookup
      exact hOther (Option.some.inj hLookup).symm
    change (s.store.closeLocked _).sessions.lookup _ = _
    rw [closeLocked_sessions, Finmap.lookup_erase_ne hNe]
    exact hLookup
  · intro q
    exact countP_set_le hc (by simp [Call.serves])

section Replaced

variable {p : Ptr} {new : Session}

theorem Exclusive.past_setSession (hEx : Exclusive s) (hId : new.id = (s.store.heap p).id)
    (hGen : (s.store.heap p).gen ≤ new.gen) (e : Resumed) (he : e ∈ s.resumes) :
    ∃ q, q < s.store.nextPtr ∧ ((s.store.setSession p new).heap q).id = e.id ∧
      e.gen < ((s.store.setSession p new).heap q).gen := by
  obtain ⟨q, hq, hqId, hLt⟩ := hEx.past e he
  refine ⟨q, hq, (Store.setSession_field Session.id hId q).trans hqId, ?_⟩
  rcases Decidable.em (q = p) with rfl | hNe
  · rw [Store.setSession_self]
    exact Nat.lt_of_lt_of_le hLt hGen
  · rw [Store.setSession_of_ne _ _ hNe]
    exact hLt

end Replaced

theorem Exclusive.baton (codec : Codec) (hEx : Exclusive s) {p : Ptr} (hc : s.calls[i]? = some (.serving p)) :
    Exclusive { s with store := (s.store.baton codec p).1, calls := s.calls.set i (.answered p) } := by
  change Exclusive { s with
    store := s.store.setSession p { s.store.heap p with busy := false, lastUsed := s.store.now }
    calls := s.calls.set i (.answered p) }
  have hNamed : Named (s.store.baton codec p).1 := hEx.named.setSession rfl
  constructor
  · exact hNamed.live
  · exact hNamed.ids
  · intro q hq
    obtain ⟨hNe, hMem⟩ := serving_others (hEx.one p) hc (by simp) hq
    dsimp only
    rw [Store.setSession_of_ne _ _ hNe]
    exact hEx.flight q hMem
  · intro q
    exact (countP_set_le hc (by simp [Call.serves])).trans (hEx.one q)
  · exact hEx.past_setSession rfl (Nat.le_refl _)
  · exact hEx.once
  · exact hEx.bound
  · exact hEx.unexpired

theorem serving_one_of_take (hOne : ∀ p, s.calls.countP (Call.serves p) ≤ 1) (hc : s.calls[i]? = some c) {p : Ptr}
    (hFree : Call.serving p ∉ s.calls) (q : Ptr) :
    (s.calls.set i (.serving p)).countP (Call.serves q) ≤ 1 := by
  have hCount : (s.calls.set i (.serving p)).countP (Call.serves q) + (c.serves q).toNat =
      s.calls.countP (Call.serves q) + (decide (p = q)).toNat := countP_set_add hc
  by_cases hq : p = q
  · subst hq
    have hZero : s.calls.countP (Call.serves p) = 0 := by
      apply List.countP_eq_zero.mpr
      intro d hd hServes
      cases d with
      | serving q =>
        obtain rfl : q = p := by simpa [Call.serves] using hServes
        exact hFree hd
      | _ => cases hServes
    have hLe := Bool.toNat_le (decide (p = p))
    omega
  · have hOld := hOne q
    rw [decide_eq_false hq, Bool.toNat_false] at hCount
    omega

theorem Exclusive.resume (hEx : Exclusive s) {baton db principal : String} {id : SessionId} {gen : Nat}
    {p : Ptr} (hc : s.calls[i]? = some (.resume baton db principal))
    (hAccepts : Accepts s.store id gen db principal p) (hGen : (s.store.heap p).gen + 1 < 2 ^ 64) :
    Exclusive
      { s with
        store := s.store.setSession p ((s.store.heap p).taken s.store.now)
        calls := s.calls.set i (.serving p)
        resumes := s.resumes ++ [⟨id, gen, db, principal, s.store.heap p, s.store.now⟩] } := by
  obtain ⟨hp, hpId⟩ := hEx.live id p hAccepts.lookup
  have hSameId : ((s.store.heap p).taken s.store.now).id = (s.store.heap p).id := rfl
  have hNamed : Named (s.store.setSession p ((s.store.heap p).taken s.store.now)) := hEx.named.setSession hSameId
  have hTaken : ((s.store.heap p).taken s.store.now).gen = (s.store.heap p).gen + 1 :=
    Nat.mod_eq_of_lt hGen
  -- The generation of this baton is still the session's; every accepted one is behind it.
  have hNew : (id, gen) ∉ s.resumes.map (fun e => (e.id, e.gen)) := by
    intro hMem
    obtain ⟨e, he, hEq⟩ := List.mem_map.mp hMem
    obtain ⟨rfl, rfl⟩ := Prod.mk.inj hEq
    obtain ⟨q, hq, hqId, hLt⟩ := hEx.past e he
    obtain rfl := hEx.ids q p hq hp (hqId.trans hpId.symm)
    rw [hAccepts.gen_eq] at hLt
    exact Nat.lt_irrefl _ hLt
  constructor
  · exact hNamed.live
  · exact hNamed.ids
  · intro q hq
    dsimp only
    rcases List.mem_or_eq_of_mem_set hq with hq | hEq
    · obtain ⟨hLookup, hBusy⟩ := hEx.flight q hq
      have hNe : q ≠ p := by
        rintro rfl
        rw [hAccepts.idle] at hBusy
        cases hBusy
      rw [Store.setSession_of_ne _ _ hNe]
      exact ⟨hLookup, hBusy⟩
    · obtain rfl := Call.serving.inj hEq
      rw [Store.setSession_self]
      exact ⟨hpId.symm ▸ hAccepts.lookup, rfl⟩
  · apply serving_one_of_take hEx.one hc
    intro hMem
    have hBusy := (hEx.flight p hMem).2
    rw [hAccepts.idle] at hBusy
    cases hBusy
  · intro e he
    rcases List.mem_append.mp he with he | he
    · have hGrows : (s.store.heap p).gen ≤ ((s.store.heap p).taken s.store.now).gen := by
        rw [hTaken]
        exact Nat.le_succ _
      exact hEx.past_setSession hSameId hGrows e he
    · obtain rfl := List.mem_singleton.mp he
      refine ⟨p, hp, ?_⟩
      dsimp only
      rw [Store.setSession_self, hTaken, hAccepts.gen_eq]
      exact ⟨hpId, Nat.lt_succ_self gen⟩
  · rw [List.map_append, List.map_singleton]
    exact hEx.once.append (List.nodup_singleton _) (List.disjoint_singleton.mpr hNew)
  · intro e he
    rcases List.mem_append.mp he with he | he
    · exact hEx.bound e he
    · obtain rfl := List.mem_singleton.mp he
      exact ⟨hpId, hAccepts.gen_eq, hAccepts.dbName, hAccepts.principal⟩
  · intro e he
    rcases List.mem_append.mp he with he | he
    · exact hEx.unexpired e he
    · obtain rfl := List.mem_singleton.mp he
      exact ⟨hAccepts.fresh, hAccepts.young⟩

theorem Exclusive.register (hEx : Exclusive s) {o : Open} {ref : Ref} {conn : ConnId} {id : SessionId}
    (hc : s.calls[i]? = some (.register o ref conn))
    (hFresh : ∀ p, p < s.store.nextPtr → (s.store.heap p).id ≠ id) :
    Exclusive
      { s with
        store := s.store.insertSession (o.session ref conn id s.store.now)
        calls := s.calls.set i (.serving s.store.nextPtr) } := by
  have hNamed : Named (s.store.insertSession (o.session ref conn id s.store.now)) :=
    hEx.named.insertSession hFresh
  have hServing : ∀ q, Call.serving q ∈ s.calls → q < s.store.nextPtr :=
    fun q hq => (hEx.live _ q (hEx.flight q hq).1).1
  constructor
  · exact hNamed.live
  · exact hNamed.ids
  · intro q hq
    dsimp only
    rcases List.mem_or_eq_of_mem_set hq with hq | hEq
    · obtain ⟨hLookup, hBusy⟩ := hEx.flight q hq
      have hLt := hServing q hq
      rw [insertSession_of_lt _ hLt]
      refine ⟨?_, hBusy⟩
      change (s.store.sessions.insert id s.store.nextPtr).lookup _ = some q
      rw [Finmap.lookup_insert_of_ne _ (hFresh q hLt)]
      exact hLookup
    · obtain rfl := Call.serving.inj hEq
      rw [insertSession_self]
      exact ⟨Finmap.lookup_insert _, rfl⟩
  · exact serving_one_of_take hEx.one hc (fun hMem => Nat.lt_irrefl _ (hServing _ hMem))
  · intro e he
    obtain ⟨q, hq, hqId, hLt⟩ := hEx.past e he
    refine ⟨q, Nat.lt_succ_of_lt hq, ?_⟩
    dsimp only
    rw [insertSession_of_lt _ hq]
    exact ⟨hqId, hLt⟩
  · exact hEx.once
  · exact hEx.bound
  · exact hEx.unexpired

/-! ## Every run -/

theorem Exclusive.of_move (hEx : Exclusive s) (hc : s.calls[i]? = some c)
    (hDisc : Disciplined codec s (.step i choice)) (hMove : Move codec s c choice t c') :
    Exclusive { t with calls := s.calls.set i c' } := by
  cases hMove with
  | quiet _ _ hServes _ =>
    exact hEx.of_shrinks (.of_counters hc rfl rfl rfl rfl rfl hServes)
  | obtain o | reserve o ref hRoom | randFailed o ref conn detail | dropRef ref err =>
    apply hEx.of_shrinks
    apply Shrinks.of_counters hc
    all_goals
      intros
      rfl
  | giveBack o ref err =>
    apply hEx.of_shrinks
    apply Shrinks.of_counters hc (releaseSlot_sessions _) (releaseSlot_heap _) (releaseSlot_nextPtr _)
      (releaseSlot_ttl _) (releaseSlot_maxLife _)
    intros
    rfl
  | register o ref conn id => exact hEx.register hc hDisc
  | resume baton db principal hVerify hAccepts hOk =>
    simp only [Disciplined, hc, State.genBelow, hOk, decide_eq_true_eq] at hDisc
    exact hEx.resume hc hAccepts hDisc
  | evict hEvicts _ _ hServes _ => exact hEx.of_shrinks (.of_evicts hc hServes hEvicts)
  | baton p => exact hEx.baton codec hc
  | close p hp =>
    simp only [Disciplined, hc] at hDisc
    rcases hp with rfl | rfl | rfl
    · exact hEx.of_shrinks (.of_close hEx hc)
    · cases hDisc
    · cases hDisc

theorem Exclusive.step {act : Action} (hEx : Exclusive s) (hDisc : Disciplined codec s act)
    (h : step codec s act = some t) : Exclusive t := by
  cases act with
  | call op =>
    cases h
    apply hEx.of_shrinks
    have hStart : ∀ p, op.start.serves p = false := fun p => by cases op <;> rfl
    refine ⟨rfl, rfl, rfl, rfl, rfl, fun _ _ h => h, ?_, fun _ _ _ h => h, ?_⟩
    · intro p hp
      rcases List.mem_append.mp hp with hp | hp
      · exact hp
      · cases op <;> simp [Op.start] at hp
    · intro p
      simp [List.countP_append, hStart]
  | tick elapsed =>
    cases h
    exact hEx.of_shrinks ⟨rfl, rfl, rfl, rfl, rfl, fun _ _ h => h, fun _ h => h, fun _ _ _ h => h,
      fun _ => Nat.le_refl _⟩
  | teardown i =>
    simp only [Sessions.step, teardownStep] at h
    split at h
    · cases h
    · cases h
      exact hEx.of_shrinks ⟨rfl, rfl, rfl, rfl, rfl, fun _ _ h => h, fun _ h => h, fun _ _ _ h => h,
        fun _ => Nat.le_refl _⟩
  | step i choice =>
    simp only [Sessions.step] at h
    split at h
    · cases h
    · rename_i c hc
      split at h
      · cases h
      · rename_i t' c' hCall
        cases h
        exact hEx.of_move hc hDisc (callStep_move hCall)

theorem Exclusive.inFlight_le_one (hEx : Exclusive s) (id : SessionId) : s.inFlight id ≤ 1 := by
  by_cases hAny : ∃ p, Call.serving p ∈ s.calls ∧ (s.store.heap p).id = id
  · obtain ⟨p, hp, rfl⟩ := hAny
    refine (List.countP_mono_left ?_).trans (hEx.one p)
    -- Whoever serves a session of this id serves the one the store holds under it.
    intro d hd hSame
    cases d with
    | serving q =>
      have hId : (s.store.heap q).id = (s.store.heap p).id := by simpa using hSame
      have hLookup := (hEx.flight q hd).1
      rw [hId, (hEx.flight p hp).1] at hLookup
      simp [Call.serves, Option.some.inj hLookup]
    | _ => cases hSame
  · apply Nat.le_succ_of_le
    apply Nat.le_of_eq
    apply List.countP_eq_zero.mpr
    intro d hd hSame
    cases d with
    | serving q => exact hAny ⟨q, hd, by simpa using hSame⟩
    | _ => cases hSame

theorem exclusive_init (ttl maxLife : Time) (max : Int) : Exclusive (init ttl maxLife max) := by
  constructor <;> simp [init, newStore]

theorem baton_once_and_exclusive (codec : Codec) (ttl maxLife : Time) (max : Int) (actions : List Action)
    (hDisc : Guarded (step codec) (Disciplined codec) (init ttl maxLife max) actions) :
    Always (step codec) BatonSafe (init ttl maxLife max) actions := by
  have hAlways := always_of_guarded (fun _ _ _ hEx hStep h => Exclusive.step hEx hStep h)
    (exclusive_init ttl maxLife max) hDisc
  exact hAlways.mono (fun _ hEx => ⟨hEx.once, hEx.inFlight_le_one, fun p hp => (hEx.flight p hp).1,
    hEx.bound, hEx.unexpired⟩)

/-- A stream hands its baton out early: a second request is refused while the first is
in flight, and accepted once, after it. -/
def peekedBaton : List Action :=
  let resume : Action := .call (.resume (mint plainCodec sampleId 1) "d" "alice")
  [.call (.stream ⟨"d", "alice", false, false⟩), .step 0 .next, .step 0 .next, .step 0 (.pinned 0),
   .step 0 .next, .step 0 (.generated sampleId), .step 0 .peek, resume, .step 1 .next, .step 0 .baton, .tick 3,
   resume, .step 2 .next, resume, .step 3 .next, .step 2 .close, .teardown 0]

theorem peekedBaton_safe :
    (run (step plainCodec) (init 5 9 1) peekedBaton).map (fun s => s.resumes.length) = some 1 ∧
    Guarded (step plainCodec) (Disciplined plainCodec) (init 5 9 1) peekedBaton ∧
    Always (step plainCodec) BatonSafe (init 5 9 1) peekedBaton := by
  have hDisc : Guarded (step plainCodec) (Disciplined plainCodec) (init 5 9 1) peekedBaton := by decide +kernel
  exact ⟨by decide +kernel, hDisc, baton_once_and_exclusive plainCodec 5 9 1 peekedBaton hDisc⟩

end QuicSql.Sessions
