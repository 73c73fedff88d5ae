import QuicSql.Session.Capture

/-!
# CloseAll

At shutdown the listeners are drained first, then `CloseAll` closes every session that has no
request and waits for the teardown goroutines, and only then the registry closes the pools. The
reaper's own `CloseAll` may run beside it. A session that is closed by it has given back its
registry reference when it returns, and after a drain nothing is left in the store.
-/

namespace QuicSql.Capture

open Lib Sessions

/-! ## A busy session has its request -/

def Served (st : Store) (calls : List Call) : Prop :=
  ∀ id p, st.sessions.lookup id = some p → (st.heap p).busy = true → Call.serving p ∈ calls

section Sessions

variable {codec : Codec} {s t : Sessions.State} {c c' : Call} {i : Nat} {choice : Choice} {st' : Store} {ref : Ref}

theorem serving_mem_set (hc : s.calls[i]? = some c) (hServes : ∀ p, c'.serves p = c.serves p) {p : Ptr}
    (hp : Call.serving p ∈ s.calls) : Call.serving p ∈ s.calls.set i c' := by
  rcases Decidable.em (Call.serving p = c) with rfl | hNe
  · have hServing : c'.serves p = true := by
      rw [hServes]
      simp [Call.serves]
    cases c' with
    | serving q =>
      obtain rfl : q = p := by simpa [Call.serves] using hServing
      exact mem_set_self hc
    | _ => cases hServing
  · exact mem_set_of_mem_ne hc hp hNe

theorem Served.of_fewer (hServed : Served s.store s.calls) (hc : s.calls[i]? = some c)
    (hServes : ∀ p, c'.serves p = c.serves p) (hHeap : st'.heap = s.store.heap)
    (hLive : ∀ id p, st'.sessions.lookup id = some p → s.store.sessions.lookup id = some p) :
    Served st' (s.calls.set i c') := by
  intro id p hLookup hBusy
  rw [hHeap] at hBusy
  exact serving_mem_set hc hServes (hServed id p (hLive id p hLookup) hBusy)

theorem Served.of_move (hServed : Served s.store s.calls) (hEx : Sessions.Exclusive s) (hc : s.calls[i]? = some c)
    (hDisc : Sessions.Disciplined codec s (.step i choice)) (hMove : Move codec s c choice t c') :
    Served t.store (s.calls.set i c') := by
  cases hMove with
  | quiet _ _ hServes _ => exact hServed.of_fewer hc hServes rfl fun _ _ h => h
  | obtain | reserve | randFailed | dropRef => exact hServed.of_fewer hc (fun _ => rfl) rfl fun _ _ h => h
  | giveBack =>
    refine hServed.of_fewer hc (fun _ => rfl) (releaseSlot_heap _) fun id p h => ?_
    rwa [releaseSlot_sessions] at h
  | evict hEvicts _ _ hServes _ => exact hServed.of_fewer hc hServes hEvicts.frame.heap hEvicts.frame.live
  | register o ref conn id =>
    intro id' p hLookup hBusy
    rcases lookup_insertSession_cases hLookup with ⟨-, rfl⟩ | hOld
    · exact mem_set_self hc
    · dsimp only at hBusy
      rw [insertSession_of_lt _ (hEx.live id' p hOld).1] at hBusy
      exact mem_set_of_mem_ne hc (hServed id' p hOld hBusy) (fun hEq => by cases hEq)
  | @resume baton db principal id gen p _ _ _ =>
    intro id' q hLookup hBusy
    rcases Decidable.em (q = p) with rfl | hNe
    · exact mem_set_self hc
    · dsimp only at hBusy
      rw [Store.setSession_of_ne _ _ hNe] at hBusy
      exact mem_set_of_mem_ne hc (hServed id' q hLookup hBusy) (fun hEq => by cases hEq)
  | baton p =>
    intro id q hLookup hBusy
    have hNe : q ≠ p := by
      rintro rfl
      rw [Store.baton, Store.setSession_self] at hBusy
      cases hBusy
    rw [Store.baton, Store.setSession_of_ne _ _ hNe] at hBusy
    exact mem_set_of_mem_ne hc (hServed id q hLookup hBusy) (fun hEq => hNe (Call.serving.inj hEq))
  | close p hp =>
    simp only [Sessions.Disciplined, hc] at hDisc
    rcases hp with rfl | rfl | rfl
    · intro id q hLookup hBusy
      rw [Store.close, closeLocked_heap] at hBusy
      rw [Store.close, closeLocked_sessions] at hLookup
      obtain ⟨hId, hOld⟩ := of_lookup_erase hLookup
      have hNe : q ≠ p := by
        rintro rfl
        exact hId (hEx.live id q hOld).2.symm
      exact mem_set_of_mem_ne hc (hServed id q hOld hBusy) (fun hEq => hNe (Call.serving.inj hEq))
    · cases hDisc
    · cases hDisc

theorem Served.step {act : Sessions.Action} (hServed : Served s.store s.calls) (hEx : Sessions.Exclusive s)
    (hDisc : Sessions.Disciplined codec s act) (h : Sessions.step codec s act = some t) : Served t.store t.calls := by
  cases act with
  | call op =>
    cases h
    exact fun id p hLookup hBusy => List.mem_append_left _ (hServed id p hLookup hBusy)
  | tick elapsed =>
    cases h
    exact hServed
  | teardown j =>
    simp only [Sessions.step, teardownStep] at h
    split at h
    · cases h
    · cases h
      exact hServed
  | step i choice =>
    obtain ⟨c, c', u, hc, hMove, rfl⟩ := step_eq_some h
    exact Served.of_move (t := u) hServed hEx hc hDisc hMove

/-! ## A reference that nobody will use again -/

/-- Neither a call nor a session of the store has the reference: it is with a teardown
goroutine, or released. -/
structure Left (ref : Ref) (s : Sessions.State) : Prop where
  made : ref < s.nextRef
  calls : ∀ c ∈ s.calls, c.owes ref = false
  sessions : ∀ id p, s.store.sessions.lookup id = some p → (s.store.heap p).release ≠ ref

theorem Left.of_fewer {nextRef : Ref} {released : Ref → Nat} {resumes : List Resumed} (hLeft : Left ref s)
    (hNext : s.nextRef ≤ nextRef) (hOwes : c'.owes ref = false)
    (hLive : ∀ id p, st'.sessions.lookup id = some p →
      s.store.sessions.lookup id = some p ∧ (st'.heap p).release = (s.store.heap p).release) :
    Left ref ⟨st', s.calls.set i c', nextRef, released, resumes⟩ where
  made := Nat.lt_of_lt_of_le hLeft.made hNext
  calls := forall_mem_set hLeft.calls hOwes
  sessions id p hLookup := by
    obtain ⟨hOld, hSame⟩ := hLive id p hLookup
    rw [hSame]
    exact hLeft.sessions id p hOld

theorem Left.of_move (hLeft : Left ref s) (hEx : Sessions.Exclusive s) (hc : s.calls[i]? = some c)
    (hMove : Move codec s c choice t c') : Left ref { t with calls := s.calls.set i c' } := by
  have hOwes : c.owes ref = false := hLeft.calls c (List.mem_of_getElem? hc)
  have hKept : ∀ id p, s.store.sessions.lookup id = some p →
      s.store.sessions.lookup id = some p ∧ (s.store.heap p).release = (s.store.heap p).release := fun _ _ h => ⟨h, rfl⟩
  cases hMove with
  | quiet _ hSame _ _ => exact hLeft.of_fewer (Nat.le_refl _) ((hSame ref).trans hOwes) hKept
  | obtain o =>
    exact hLeft.of_fewer (Nat.le_succ _) (decide_eq_false (Nat.ne_of_gt hLeft.made)) hKept
  | reserve => exact hLeft.of_fewer (Nat.le_refl _) hOwes hKept
  | randFailed => exact hLeft.of_fewer (Nat.le_refl _) hOwes hKept
  | dropRef => exact hLeft.of_fewer (Nat.le_refl _) rfl hKept
  | giveBack =>
    refine hLeft.of_fewer (Nat.le_refl _) hOwes fun id p h => ?_
    rw [releaseSlot_sessions] at h
    exact ⟨h, by rw [releaseSlot_heap]⟩
  | register o ref' conn id =>
    refine ⟨hLeft.made, forall_mem_set hLeft.calls rfl, fun id' p hLookup => ?_⟩
    dsimp only
    rcases lookup_insertSession_cases hLookup with ⟨-, rfl⟩ | hOld
    · rw [insertSession_self]
      exact of_decide_eq_false hOwes
    · rw [insertSession_of_lt _ (hEx.live id' p hOld).1]
      exact hLeft.sessions id' p hOld
  | @resume _ _ _ _ _ p _ _ _ =>
    have hSame : ((s.store.heap p).taken s.store.now).release = (s.store.heap p).release := rfl
    exact hLeft.of_fewer (Nat.le_refl _) rfl fun id q h => ⟨h, Store.setSession_field Session.release hSame q⟩
  | evict hEvicts _ hSame _ _ =>
    refine hLeft.of_fewer (Nat.le_refl _) ((hSame ref).trans hOwes) fun id p h => ⟨hEvicts.frame.live id p h, ?_⟩
    rw [hEvicts.frame.heap]
  | baton p =>
    have hSame : { s.store.heap p with busy := false, lastUsed := s.store.now }.release = (s.store.heap p).release := rfl
    exact hLeft.of_fewer (Nat.le_refl _) rfl fun id q h => ⟨h, Store.setSession_field Session.release hSame q⟩
  | close p hp =>
    refine hLeft.of_fewer (Nat.le_refl _) rfl fun id q h => ⟨lookup_of_closeLocked h, ?_⟩
    rw [Store.close, closeLocked_heap]

theorem Left.step {act : Sessions.Action} (hLeft : Left ref s) (hEx : Sessions.Exclusive s)
    (h : Sessions.step codec s act = some t) : Left ref t := by
  cases act with
  | call op =>
    cases h
    refine ⟨hLeft.made, fun c hc => ?_, hLeft.sessions⟩
    rcases List.mem_append.mp hc with hc | hc
    · exact hLeft.calls c hc
    · rw [List.mem_singleton.mp hc]
      cases op <;> rfl
  | tick elapsed =>
    cases h
    exact ⟨hLeft.made, hLeft.calls, hLeft.sessions⟩
  | teardown j =>
    simp only [Sessions.step, teardownStep] at h
    split at h
    · cases h
    · cases h
      exact ⟨hLeft.made, hLeft.calls, hLeft.sessions⟩
  | step i choice =>
    obtain ⟨c, c', u, hc, hMove, rfl⟩ := step_eq_some h
    exact hLeft.of_move hEx hc hMove

/-! ## The sweep -/

variable {st : Store} {id : SessionId} {p : Ptr}

theorem of_lookup_closeAll {order : List SessionId} (h : (st.closeAll order).sessions.lookup id = some p) :
    st.sessions.lookup id = some p ∧ (id ∈ order → (st.heap p).busy = true) := by
  induction order generalizing st with
  | nil => exact ⟨h, fun hMem => absurd hMem List.not_mem_nil⟩
  | cons id' rest ih =>
    have hRest : ((st.closeAllOne id').closeAll rest).sessions.lookup id = some p := h
    obtain ⟨hLookup, hBusy⟩ := ih hRest
    have hFrame : EvictFrame st (st.closeAllOne id') := (evicts_closeAll [id']).frame
    have hOld := hFrame.live id p hLookup
    refine ⟨hOld, fun hMem => ?_⟩
    rcases List.mem_cons.mp hMem with rfl | hMem
    · by_contra hIdle
      rw [Store.closeAllOne, hOld] at hLookup
      dsimp only at hLookup
      rw [if_neg hIdle, closeLocked_sessions, Finmap.lookup_erase] at hLookup
      cases hLookup
    · have hLater := hBusy hMem
      rwa [hFrame.heap] at hLater

theorem closeAll_step {order : List SessionId} (hc : s.calls[i]? = some .closeAll)
    (h : Sessions.step codec s (.step i (.range order)) = some t) :
    (∀ id p, s.store.sessions.lookup id = some p → id ∈ order) ∧
      t = { s with store := s.store.closeAll order, calls := s.calls.set i .waitClosing } := by
  simp only [Sessions.step, hc, callStep] at h
  split at h
  · cases h
  · rename_i hStep
    split at hStep
    · rename_i hRange
      cases hStep
      cases h
      refine ⟨fun id p hLookup => ?_, rfl⟩
      rw [← List.mem_toFinset, hRange.2, Finmap.mem_keys]
      exact Finmap.mem_of_lookup_eq_some hLookup
    · cases hStep

theorem waitClosing_step (hc : s.calls[i]? = some .waitClosing) (h : Sessions.step codec s (.step i choice) = some t) :
    s.store.closing = [] ∧ t = { s with calls := s.calls.set i .done } := by
  simp only [Sessions.step, hc] at h
  cases choice with
  | next =>
    simp only [callStep] at h
    split at h
    · cases h
    · rename_i hStep
      split at hStep
      · rename_i hClosing
        cases hStep
        cases h
        exact ⟨hClosing, rfl⟩
      · cases hStep
  | _ => cases h

theorem left_of_closeAll {order : List SessionId} (hAcct : Accounted s) (hLookup : s.store.sessions.lookup id = some p)
    (hIdle : (s.store.heap p).busy = false) (hMem : id ∈ order) :
    Left (s.store.heap p).release { s with store := s.store.closeAll order, calls := s.calls.set i .waitClosing } := by
  have hOwner : 0 < s.store.owners (s.store.heap p).release := tally_pos hLookup (by simp)
  have hRefs := hAcct.refs (s.store.heap p).release
  have hLe := hAcct.refs_le (s.store.heap p).release
  refine ⟨?_, forall_mem_set (fun c hc => ?_) rfl, fun id' q hq hSame => ?_⟩
  · by_contra hLt
    rw [decide_eq_false hLt, Bool.toNat_false] at hRefs
    omega
  · by_contra hOwes
    have hOwed : 0 < s.owed (s.store.heap p).release :=
      List.countP_pos_iff.mpr ⟨c, hc, Bool.not_eq_false _ ▸ hOwes⟩
    omega
  · obtain ⟨hOld, hBusy⟩ := of_lookup_closeAll hq
    dsimp only at hSame
    rw [(evicts_closeAll order).frame.heap] at hSame
    obtain rfl := release_inj hAcct hOld hLookup hSame
    obtain rfl := Option.some.inj (hOld.symm.trans hLookup)
    cases hIdle.symm.trans (hBusy hMem)

/-! ## Nothing in progress -/

/-- The call is no request that has, or may still obtain, a slot, a reference or a new session. -/
def idle : Call → Bool
  | .stream _ | .slot _ _ | .pin _ _ | .mode _ _ _ | .register _ _ _ | .giveBack _ _ _ | .dropRef _ _ | .serving _ => false
  | .resume _ _ _ | .answered _ | .closed _ | .kill _ | .killed _ | .reap | .closeAll | .waitClosing | .failed _ | .done =>
    true

theorem idle_iff : idle c = true ↔ c.opener = none ∧ (∀ name, c.holdsSlot name = false) ∧
    (∀ ref, c.owes ref = false) ∧ ∀ p, c.serves p = false := by
  cases c <;> simp [idle, Call.opener, Call.holdsSlot, Call.owes, Call.serves]

/-- The store is empty and no call changes that. -/
structure Quiet (s : Sessions.State) : Prop where
  calls : ∀ c ∈ s.calls, idle c = true
  sessions : ∀ id, s.store.sessions.lookup id = none

theorem Quiet.of_move (hQuiet : Quiet s) (hc : s.calls[i]? = some c)
    (hDisc : Sessions.Disciplined codec s (.step i choice)) (hMove : Move codec s c choice t c') :
    Quiet { t with calls := s.calls.set i c' } := by
  have hIdle := hQuiet.calls c (List.mem_of_getElem? hc)
  obtain ⟨hOpener, hSlots, hOwes, hServes⟩ := idle_iff.mp hIdle
  cases hMove with
  | quiet hSlot hOwe hServe hOpen =>
    refine ⟨forall_mem_set hQuiet.calls (idle_iff.mpr ⟨?_, ?_, ?_, ?_⟩), hQuiet.sessions⟩
    · exact Option.eq_none_iff_forall_not_mem.mpr fun o ho => by cases hOpener.symm.trans (hOpen o ho)
    · exact fun name => (hSlot name).trans (hSlots name)
    · exact fun ref => (hOwe ref).trans (hOwes ref)
    · exact fun p => (hServe p).trans (hServes p)
  | evict hEvicts hSlot hOwe hServe hOpen =>
    refine ⟨forall_mem_set hQuiet.calls (idle_iff.mpr ⟨?_, ?_, ?_, ?_⟩), fun id => ?_⟩
    · exact Option.eq_none_iff_forall_not_mem.mpr hOpen
    · exact fun name => (hSlot name).trans (hSlots name)
    · exact fun ref => (hOwe ref).trans (hOwes ref)
    · exact fun p => (hServe p).trans (hServes p)
    · exact Option.eq_none_iff_forall_not_mem.mpr fun p hp => by
        cases (hQuiet.sessions id).symm.trans (hEvicts.frame.live id p hp)
  | resume _ _ _ _ hAccepts _ => cases (hQuiet.sessions _).symm.trans hAccepts.lookup
  | close p hp =>
    simp only [Sessions.Disciplined, hc] at hDisc
    rcases hp with rfl | rfl | rfl
    · cases hIdle
    · cases hDisc
    · cases hDisc
  | _ => cases hIdle

theorem Quiet.step {act : Sessions.Action} (hQuiet : Quiet s) (hDisc : Sessions.Disciplined codec s act)
    (hStart : ∀ o, act ≠ .call (.stream o)) (h : Sessions.step codec s act = some t) : Quiet t := by
  cases act with
  | call op =>
    cases h
    refine ⟨fun c hc => ?_, hQuiet.sessions⟩
    rcases List.mem_append.mp hc with hc | hc
    · exact hQuiet.calls c hc
    · rw [List.mem_singleton.mp hc]
      cases op with
      | stream o => exact absurd rfl (hStart o)
      | _ => rfl
  | tick elapsed =>
    cases h
    exact ⟨hQuiet.calls, hQuiet.sessions⟩
  | teardown j =>
    simp only [Sessions.step, teardownStep] at h
    split at h
    · cases h
    · cases h
      exact ⟨hQuiet.calls, hQuiet.sessions⟩
  | step i choice =>
    obtain ⟨c, c', u, hc, hMove, rfl⟩ := step_eq_some h
    exact hQuiet.of_move hc hDisc hMove

theorem quiet_of_closeAll {order : List SessionId} (hServed : Served s.store s.calls) (hCalls : ∀ c ∈ s.calls, idle c = true)
    (hOrder : ∀ id p, s.store.sessions.lookup id = some p → id ∈ order) :
    Quiet { s with store := s.store.closeAll order, calls := s.calls.set i .waitClosing } where
  calls := forall_mem_set hCalls rfl
  sessions id := by
    refine Option.eq_none_iff_forall_not_mem.mpr fun p hp => ?_
    obtain ⟨hOld, hBusy⟩ := of_lookup_closeAll hp
    cases hCalls _ (hServed id p hOld (hBusy (hOrder id p hOld)))

end Sessions

/-! ## Every run -/

variable {codec : Codec} {s t : State} {i : Nat}

theorem sysStep_sys {act : Sessions.Action} (h : step codec s (.sys act) = some t) :
    Sessions.step codec s.sys act = some t.sys := by
  simp only [step, sysStep] at h
  split at h
  · split at h
    · cases h
    · rename_i u hStep
      cases h
      exact hStep
  · cases h

theorem step_sys {act : Action} (h : step codec s act = some t) :
    t.sys = s.sys ∨ ∃ act', act = .sys act' ∧ Sessions.step codec s.sys act' = some t.sys := by
  cases act with
  | sys act => exact .inr ⟨act, rfl, sysStep_sys h⟩
  | teardown ref =>
    cases h
    exact .inl rfl
  | request i op =>
    simp only [step] at h
    split at h
    · have hChange := captureStep_change h
      cases hChange <;> exact .inl rfl
    · cases h

structure Sane (s : State) : Prop where
  inv : Inv s
  served : Served s.sys.store s.sys.calls

theorem Sane.step {act : Action} (hSane : Sane s) (hDisc : Disciplined codec s act)
    (h : Capture.step codec s act = some t) : Sane t := by
  refine ⟨hSane.inv.step hDisc h, ?_⟩
  rcases step_sys h with hSame | ⟨act', rfl, hStep⟩
  · rw [hSame]
    exact hSane.served
  · exact hSane.served.step hSane.inv.ex hDisc hStep

theorem Left.run {ref : Ref} {act : Action} (hLeft : Left ref s.sys) (hSane : Sane s)
    (h : Capture.step codec s act = some t) : Left ref t.sys := by
  rcases step_sys h with hSame | ⟨act', rfl, hStep⟩
  · rwa [hSame]
  · exact hLeft.step hSane.inv.ex hStep

theorem Quiet.run {act : Action} (hQuiet : Quiet s.sys) (hDisc : Disciplined codec s act)
    (hStart : ∀ o, act ≠ .sys (.call (.stream o))) (h : Capture.step codec s act = some t) : Quiet t.sys := by
  rcases step_sys h with hSame | ⟨act', rfl, hStep⟩
  · rwa [hSame]
  · exact hQuiet.step hDisc (fun o hEq => hStart o (by rw [hEq])) hStep

theorem final_of_guarded {P : State → Prop} {actions : List Action} (hSane : Sane s) (hFirst : P s)
    (hStep : ∀ s act t, act ∈ actions → Sane s → Disciplined codec s act → P s → step codec s act = some t → P t)
    (hDisc : Guarded (step codec) (Disciplined codec) s actions) (hRun : run (step codec) s actions = some t) :
    Sane t ∧ P t := by
  induction actions generalizing s with
  | nil =>
    cases hRun
    exact ⟨hSane, hFirst⟩
  | cons act rest ih =>
    obtain ⟨u, hu, hRest⟩ := Option.bind_eq_some_iff.mp hRun
    obtain ⟨hAct, hDisc⟩ := hDisc u hu
    exact ih (hSane.step hAct hu) (hStep s act u List.mem_cons_self hSane hAct hFirst hu)
      (fun s act t hMem => hStep s act t (List.mem_cons_of_mem _ hMem)) hDisc hRest

def isTeardown : Action → Bool
  | .teardown _ | .sys (.teardown _) => true
  | _ => false

theorem teardowns_finish (codec : Codec) (s : State) :
    ∃ actions t, (∀ act ∈ actions, isTeardown act = true) ∧ run (step codec) s actions = some t ∧
      t.sys.store.closing = [] ∧ t.sys.calls = s.sys.calls ∧ t.stage = s.stage := by
  generalize hClosing : s.sys.store.closing = closing
  induction closing generalizing s with
  | nil => exact ⟨[], s, fun _ hMem => absurd hMem List.not_mem_nil, rfl, hClosing, rfl, rfl⟩
  | cons td rest ih =>
    -- The capture first, then the connection and the reference.
    let s' : State := { s with captures := s.captures.close (.torn td.release) }
    have hEnabled : sysEnabled s' (.teardown 0) = true := by
      simp only [s', sysEnabled, hClosing, List.getElem?_cons_zero, Custody.held_close_self, Option.isNone_none]
    obtain ⟨u, hu, hStore, hCalls, hStage⟩ : ∃ u, step codec s' (.sys (.teardown 0)) = some u ∧
        u.sys.store.closing = rest ∧ u.sys.calls = s.sys.calls ∧ u.stage = s.stage := by
      simp only [step, sysStep, hEnabled, if_true, Sessions.step, teardownStep, s', hClosing, List.getElem?_cons_zero]
      exact ⟨_, rfl, rfl, rfl, rfl⟩
    obtain ⟨actions, t, hAll, hRun, hDone, hCalls', hStage'⟩ := ih u hStore
    refine ⟨.teardown td.release :: .sys (.teardown 0) :: actions, t, ?_, ?_, hDone, hCalls'.trans hCalls,
      hStage'.trans hStage⟩
    · intro act hMem
      rcases List.mem_cons.mp hMem with rfl | hMem
      · rfl
      · rcases List.mem_cons.mp hMem with rfl | hMem
        · rfl
        · exact hAll act hMem
    · change (step codec s' (.sys (.teardown 0))).bind _ = some t
      rw [hu]
      exact hRun

/-- Nothing is left to close but the pools themselves. -/
structure ShutDown (s : State) : Prop where
  sessions : ∀ id, s.sys.store.sessions.lookup id = none
  slots : ∀ name, s.sys.store.perDB name = 0
  refs : ∀ ref, ref < s.sys.nextRef → s.sys.released ref = 1
  captures : ∀ h, h < s.captures.next → s.captures.closed h = 1

theorem Sane.shutDown (hSane : Sane s) (hQuiet : Quiet s.sys) (hClosing : s.sys.store.closing = []) : ShutDown s := by
  have hBalanced : Balanced plainCodec s.sys := hSane.inv.acct.balanced
  have hNone : ∀ id p, s.sys.store.sessions.lookup id ≠ some p := by
    intro id p hLookup
    cases (hQuiet.sessions id).symm.trans hLookup
  have hIdle := fun c hc => idle_iff.mp (hQuiet.calls c hc)
  refine ⟨hQuiet.sessions, fun name => ?_, fun ref hRef => ?_, fun h hLt => ?_⟩
  · have hBound : s.sys.store.bound name = 0 := by
      unfold Store.bound
      rw [tally_congr (q := fun _ => false) (fun id p hLookup => absurd hLookup (hNone id p))]
      simp [tally]
    have hOpenings : s.sys.openings name = 0 :=
      List.countP_eq_zero.mpr fun c hc => Bool.not_eq_true _ ▸ (hIdle c hc).2.1 name
    rw [hBalanced.slots name, hBound, hOpenings]
    rfl
  · refine hBalanced.settled ref hRef (fun id p hLookup => absurd hLookup (hNone id p)) (fun c hc => (hIdle c hc).2.2.1 ref) ?_
    intro td hTd
    rw [hClosing] at hTd
    cases hTd
  · have hUnserved : ∀ p, Call.serving p ∉ s.sys.calls := by
      intro p hMem
      cases hQuiet.calls _ hMem
    rcases hSane.inv.safe.settled hUnserved hClosing h hLt with hClosed | ⟨id, p, hLookup, -⟩
    · exact hClosed
    · exact absurd hLookup (hNone id p)

/-- `CloseAll` in any run. Its wait ends once the teardown goroutines run. When it returns, every
session that was in the store without a request has given its reference back, once. If in
addition no stream was open or being opened when it swept the store, and none was since, then the
store is empty and every slot, reference and capture is given back. -/
theorem closeAll_drains (codec : Codec) (ttl maxLife : Time) (max : Int) (before between : List Action) (i : Nat)
    (order : List SessionId) {s s₁ s₂ : State}
    (hDisc : Guarded (step codec) (Disciplined codec) (init ttl maxLife max) before)
    (hBefore : run (step codec) (init ttl maxLife max) before = some s) (hCall : s.sys.calls[i]? = some .closeAll)
    (hSweep : step codec s (.sys (.step i (.range order))) = some s₁)
    (hDisc' : Guarded (step codec) (Disciplined codec) s₁ between) (hBetween : run (step codec) s₁ between = some s₂)
    (hWait : s₂.sys.calls[i]? = some .waitClosing) :
    (∃ finish u, (∀ act ∈ finish, isTeardown act = true) ∧ run (step codec) s₂ finish = some u ∧
      (step codec u (.sys (.step i .next))).isSome = true) ∧
    ∀ t, step codec s₂ (.sys (.step i .next)) = some t →
      (∀ id p, s.sys.store.sessions.lookup id = some p → (s.sys.store.heap p).busy = false →
        t.sys.released (s.sys.store.heap p).release = 1) ∧
      ((∀ c ∈ s.sys.calls, idle c = true) → (∀ o, .sys (.call (.stream o)) ∉ between) → ShutDown t) := by
  have hSane : Sane s := by
    refine (final_of_guarded (P := fun _ => True) ?_ trivial (fun _ _ _ _ _ _ _ _ => trivial) hDisc hBefore).1
    exact ⟨inv_init ttl maxLife max, fun id p hLookup => by simp [init, Sessions.init, newStore] at hLookup⟩
  have hSwept : Disciplined codec s (.sys (.step i (.range order))) := trivial
  have hSane₁ : Sane s₁ := hSane.step hSwept hSweep
  obtain ⟨hOrder, hSys⟩ := closeAll_step hCall (sysStep_sys hSweep)
  have hSane₂ : Sane s₂ :=
    (final_of_guarded (P := fun _ => True) hSane₁ trivial (fun _ _ _ _ _ _ _ _ => trivial) hDisc' hBetween).1
  refine ⟨?_, fun t hReturn => ?_⟩
  · obtain ⟨finish, u, hAll, hRun, hClosing, hCalls, hStage⟩ := teardowns_finish codec s₂
    have hReady : s₂.stage i = .ready := by
      by_contra hStage
      obtain ⟨p, hp⟩ := hSane₂.inv.busy i hStage
      cases hWait.symm.trans hp
    refine ⟨finish, u, hAll, hRun, ?_⟩
    simp [step, sysStep, sysEnabled, hStage, hReady, Sessions.step, hCalls, hWait, callStep, hClosing]
  · obtain ⟨hClosing, hDone⟩ := waitClosing_step hWait (sysStep_sys hReturn)
    have hNext : Disciplined codec s₂ (.sys (.step i .next)) := by
      change s₂.sys.genBelow codec s₂.sys.calls[i]? = true
      rw [hWait]
      rfl
    have hSane' : Sane t := hSane₂.step hNext hReturn
    have hClosing' : t.sys.store.closing = [] := by
      rw [hDone]
      exact hClosing
    constructor
    · intro id p hLookup hIdle
      have hLeft₁ : Left (s.sys.store.heap p).release s₁.sys := by
        rw [hSys]
        exact left_of_closeAll hSane.inv.acct hLookup hIdle (hOrder id p hLookup)
      have hLeft₂ := (final_of_guarded (P := fun s => Left _ s.sys) hSane₁ hLeft₁
        (fun _ _ _ _ hSane _ hLeft h => Left.run hLeft hSane h) hDisc' hBetween).2
      have hLeft : Left (s.sys.store.heap p).release t.sys := Left.run hLeft₂ hSane₂ hReturn
      have hBalanced : Balanced codec t.sys := hSane'.inv.acct.balanced
      refine hBalanced.settled _ hLeft.made hLeft.sessions hLeft.calls ?_
      rw [hClosing']
      intro td hTd
      cases hTd
    · intro hIdle hNone
      have hQuiet₁ : Quiet s₁.sys := by
        rw [hSys]
        exact quiet_of_closeAll hSane.served hIdle hOrder
      have hQuiet₂ := (final_of_guarded (P := fun s => Quiet s.sys) hSane₁ hQuiet₁ (fun _ act _ hMem _ hDisc hQuiet h =>
        Quiet.run hQuiet hDisc (fun o hEq => hNone o (hEq ▸ hMem)) h) hDisc' hBetween).2
      have hQuiet : Quiet t.sys := by
        rw [hDone]
        exact ⟨forall_mem_set hQuiet₂.calls rfl, hQuiet₂.sessions⟩
      exact hSane'.shutDown hQuiet hClosing'

/-- A stream is idle with a capture attached when the shutdown and the reaper both call `CloseAll`. -/
def idleStream : List Action :=
  [.sys (.call (.stream ⟨"d", "alice", false, false⟩)), .sys (.step 0 .next), .sys (.step 0 .next),
   .sys (.step 0 (.pinned 0)), .sys (.step 0 .next), .sys (.step 0 (.generated sampleId)),
   .request 0 (.start []), .request 0 (.create true), .request 0 (.attach true), .request 0 .set,
   .sys (.step 0 .baton), .sys (.call .closeAll), .sys (.call .closeAll)]

def afterIdle : State := (run (step plainCodec) (init 5 9 1) idleStream).get (by decide +kernel)

def afterSweep : State := (step plainCodec afterIdle (.sys (.step 1 (.range [sampleId])))).get (by decide +kernel)

/-- The reaper's sweep finds nothing; the goroutine closes the capture, then the rest. -/
def teardown : List Action := [.sys (.step 2 (.range [])), .teardown 0, .sys (.teardown 0)]

def afterTeardown : State := (run (step plainCodec) afterSweep teardown).get (by decide +kernel)

theorem idleStream_drained :
    Guarded (step plainCodec) (Disciplined plainCodec) (init 5 9 1) idleStream ∧
    Guarded (step plainCodec) (Disciplined plainCodec) afterSweep teardown ∧
    ∃ t, step plainCodec afterTeardown (.sys (.step 1 .next)) = some t ∧ ShutDown t := by
  have hDisc : Guarded (step plainCodec) (Disciplined plainCodec) (init 5 9 1) idleStream := by decide +kernel
  have hDisc' : Guarded (step plainCodec) (Disciplined plainCodec) afterSweep teardown := by decide +kernel
  have hCall : afterIdle.sys.calls[1]? = some .closeAll := by decide +kernel
  have hWait : afterTeardown.sys.calls[1]? = some .waitClosing := by decide +kernel
  have hReturns : (step plainCodec afterTeardown (.sys (.step 1 .next))).isSome = true := by decide +kernel
  obtain ⟨t, hReturn⟩ := Option.isSome_iff_exists.mp hReturns
  have hDrains := closeAll_drains plainCodec 5 9 1 idleStream teardown 1 [sampleId] hDisc (Option.some_get _).symm hCall
    (Option.some_get _).symm hDisc' (Option.some_get _).symm hWait
  exact ⟨hDisc, hDisc', t, hReturn, (hDrains.2 t hReturn).2 (by decide +kernel) (by simp [teardown])⟩

end QuicSql.Capture
