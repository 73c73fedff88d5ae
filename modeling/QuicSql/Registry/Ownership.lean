import QuicSql.Registry.Steps

/-!
# Who may close a handle, and how many are open

A handle in use is never handed to `Handle.Close`. The registry does not keep
the promise of a single open handle per database, though: `ReapIdle`, `Remove`
and `Reserve` take a handle off the map under the mutex and close it after the
mutex is released, and until then a `Get` may open the database again.
-/

namespace QuicSql.Registry

open Lib

variable {s t : State} {i : Nat} {name : DbName} {e : EntryId}

/-! ## No handle is closed under a user -/

/-- The Get has its handle, about to return or returned, and its release has not run. -/
def Call.uses (name : DbName) (d : DB) (c : Call) : Prop :=
  ∃ e, c = .returning name e (some d) ∨ c = .holding name e (some d)

structure UserSafe (s : State) : Prop where
  refs : ∀ e, e < s.reg.nextEntry →
    (s.reg.heap e).refs = s.calls.countP (Call.holdsRef e) ∧ 0 ≤ (s.reg.heap e).refs
  some_handle : ∀ name e db, Call.returning name e db ∈ s.calls ∨ Call.holding name e db ∈ s.calls →
    ∃ d, db = some d ∧ d.name = name
  not_closing : ∀ name d, ∀ c ∈ s.calls, c.uses name d →
    (s.reg.handles d.handle).status = .open ∧
    ∀ purpose todo stage, Call.closing purpose todo stage ∈ s.calls →
      ∀ d' ∈ todo, d'.handle ≠ d.handle
  not_reserved : ∀ name d, ∀ c ∈ s.calls, c.uses name d → ∀ c' ∈ s.calls, c'.reserves name = false

theorem Inv.uses_serves (hInv : Inv s) {d : DB} {c : Call} (hc : c ∈ s.calls) (hUses : c.uses name d) :
    ∃ e, Serves s.reg name e d := by
  obtain ⟨e, rfl | rfl⟩ := hUses
  all_goals
    obtain ⟨d', hd, hServes⟩ := hInv.callOk _ hc
    cases hd
    exact ⟨e, hServes⟩

theorem Inv.todo_retired (hInv : Inv s) {purpose : CloseFor} {todo : List DB} {stage : CloseStage}
    (hc : Call.closing purpose todo stage ∈ s.calls) {d : DB} (hd : d ∈ todo) :
    Retired s.reg d.handle := by
  have hOk := hInv.callOk _ hc
  cases purpose with
  | reserve name => exact hOk.2 d hd
  | remove | reap => exact hOk d hd

theorem Inv.userSafe (hInv : Inv s) : UserSafe s where
  refs e he := by
    have hRefs := hInv.refs e he
    exact ⟨hRefs, by omega⟩
  some_handle name e db hCall := by
    obtain ⟨d, rfl, hServes⟩ : ∃ d, db = some d ∧ Serves s.reg name e d := by
      rcases hCall with hc | hc
      · exact hInv.callOk _ hc
      · exact hInv.callOk _ hc
    exact ⟨d, rfl, (hInv.serving_shape hServes).2.2.1⟩
  not_closing name d c hc hUses := by
    obtain ⟨e, hServes⟩ := hInv.uses_serves hc hUses
    obtain ⟨_, _, _, hUsable⟩ := hInv.serving_shape hServes
    have hOpen : (s.reg.handles d.handle).status = .open := by rw [hUsable.2]
    refine ⟨hOpen, ?_⟩
    intro purpose todo stage hClosing d' hd' hEq
    apply (hInv.todo_retired hClosing hd').2
    rw [hEq]
    exact hOpen
  not_reserved name d c hc hUses c' hc' := by
    obtain ⟨e, hServes⟩ := hInv.uses_serves hc hUses
    by_contra hRes
    have hRes : c'.reserves name = true := by simpa using hRes
    obtain ⟨e', hLookup, hCase⟩ := (hInv.callOk c' hc').of_pins (Call.pins_of_reserves hRes)
    obtain rfl : e = e' := Option.some.inj (hServes.1.symm.trans hLookup)
    have hReserved : (s.reg.heap e).reserved = true := by
      rcases hCase with hRef | ⟨_, hReserved⟩
      · cases c' with
        | closing purpose _ _ => simp [Call.holdsRef] at hRef
        | _ => simp_all [Call.holdsRef, Call.reserves]
      · exact hReserved
    rw [(hInv.serving_shape hServes).2.1] at hReserved
    cases hReserved

/-- In every interleaving the counts are exact, and a handle with a user is neither
reserved away nor closed. -/
theorem handle_safe_under_users (backends : Finmap (fun _ : DbName => Backend))
    (actions : List Action) : Always step UserSafe (init backends) actions :=
  (always_inv backends actions).mono (fun _ hInv => hInv.userSafe)

/-! ## One open handle per database -/

/-- At most one handle per database is open, and none while it is reserved. -/
structure SingleOwner (s : State) : Prop where
  unique : ∀ h h', h < s.reg.nextHandle → h' < s.reg.nextHandle →
    (s.reg.handles h).name = (s.reg.handles h').name →
    (s.reg.handles h).status ≠ .closed → (s.reg.handles h').status ≠ .closed → h = h'
  reserved : ∀ name, Call.reserved name ∈ s.calls → ∀ h, h < s.reg.nextHandle →
    (s.reg.handles h).name = name → (s.reg.handles h).status = .closed

def Draining (r : Registry) (name : DbName) : Prop :=
  ∃ h, h < r.nextHandle ∧ (r.handles h).name = name ∧
    ((r.handles h).status = .detached ∨ (r.handles h).status = .closing)

/-- An open succeeds, or a Reserve returns, only when no detached handle of the
database is still waiting for its close. -/
def ClosesFirst (s : State) : Action → Prop
  | .step i .openOk => ∀ name e, s.calls[i]? = some (.opening name e) → ¬ Draining s.reg name
  | .step i .next => ∀ name stage, s.calls[i]? = some (.closing (.reserve name) [] stage) →
      ¬ Draining s.reg name
  | _ => True

theorem Inv.closed_of_not_live (hInv : Inv s) {h : HandleId} (hLt : h < s.reg.nextHandle)
    (hDrain : ¬ Draining s.reg (s.reg.handles h).name) (hLive : ¬ Live s h) :
    (s.reg.handles h).status = .closed := by
  cases hStatus : (s.reg.handles h).status with
  | «open» => exact absurd (hInv.live h hLt hStatus) hLive
  | detached => exact absurd ⟨h, hLt, rfl, .inl hStatus⟩ hDrain
  | closing => exact absurd ⟨h, hLt, rfl, .inr hStatus⟩ hDrain
  | closed => rfl

theorem Inv.not_live_of_opening (hInv : Inv s) (hc : s.calls[i]? = some (.opening name e))
    {h : HandleId} (hName : (s.reg.handles h).name = name) : ¬ Live s h := by
  have hOpens : Opens s.reg name e := hInv.callOk _ (List.mem_of_getElem? hc)
  rintro (⟨n, e', db, hn, hServes, _⟩ | ⟨n, e', hMem⟩)
  · obtain rfl : name = n := hName.symm.trans hn
    exact hInv.not_serves_of_opens hOpens hServes
  · obtain ⟨hOpens', hUsable⟩ : Opens s.reg n e' ∧ Usable s.reg n h := hInv.callOk _ hMem
    obtain rfl : name = n := by rw [← hName, hUsable.2]
    obtain rfl : e = e' := Option.some.inj (hOpens.1.symm.trans hOpens'.1)
    -- Two openers of one entry: the count of its references would be at least two.
    obtain ⟨j, hj⟩ := List.mem_iff_getElem?.mp hMem
    have hij : i ≠ j := by
      rintro rfl
      rw [hc] at hj
      cases hj
    have hTwo := two_le_countP (p := Call.holdsRef e) hc hj hij (by simp [Call.holdsRef])
      (by simp [Call.holdsRef])
    have hRefs := hInv.refs e (hInv.entryOk name e hOpens.1).1
    rw [(hInv.opening_shape hOpens).2.2.2] at hRefs
    omega

theorem Inv.not_live_of_reserved (hInv : Inv s) (hReserved : Reserved s.reg name) {h : HandleId}
    (hName : (s.reg.handles h).name = name) : ¬ Live s h := by
  obtain ⟨e, hLookup, hRes⟩ := hReserved
  rintro (⟨n, e', db, hn, hServes, _⟩ | ⟨n, e', hMem⟩)
  · obtain rfl : name = n := hName.symm.trans hn
    obtain rfl : e = e' := Option.some.inj (hLookup.symm.trans hServes.1)
    rw [(hInv.serving_shape hServes).2.1] at hRes
    cases hRes
  · obtain ⟨hOpens, hUsable⟩ : Opens s.reg n e' ∧ Usable s.reg n h := hInv.callOk _ hMem
    obtain rfl : name = n := by rw [← hName, hUsable.2]
    obtain rfl : e = e' := Option.some.inj (hLookup.symm.trans hOpens.1)
    rw [(hInv.opening_shape hOpens).2.2.1] at hRes
    cases hRes

/-! ## What a step does to the handles -/

structure Closer (r r' : Registry) : Prop where
  nextHandle : r'.nextHandle = r.nextHandle
  name : ∀ h, (r'.handles h).name = (r.handles h).name
  closed : ∀ h, (r.handles h).status = .closed → (r'.handles h).status = .closed

/-- Moreover, no handle is opened again. -/
structure Ages (r r' : Registry) : Prop extends Closer r r' where
  stays : ∀ h, (r'.handles h).status = .open → (r.handles h).status = .open

theorem Ages.of_handles {r r' : Registry} (hNext : r'.nextHandle = r.nextHandle) (hHandles : r'.handles = r.handles) :
    Ages r r' := by
  refine ⟨⟨hNext, ?_, ?_⟩, ?_⟩
  all_goals
    rw [hHandles]
    simp

theorem Ages.refl (r : Registry) : Ages r r := .of_handles rfl rfl

theorem Ages.trans {r r' r'' : Registry} (h : Ages r r') (h' : Ages r' r'') : Ages r r'' :=
  ⟨⟨h'.nextHandle.trans h.nextHandle, fun k => (h'.name k).trans (h.name k),
    fun k hk => h'.closed k (h.closed k hk)⟩, fun k hk => h.stays k (h'.stays k hk)⟩

theorem ages_setStatus (r : Registry) (h : HandleId) {status : HandleStatus} (hStatus : status ≠ .open) :
    Ages r (r.setStatus h status) where
  nextHandle := rfl
  name k := (setStatus_handles r h k status).1
  closed k hk := by
    rw [(setStatus_handles r h k status).2]
    split
    · rename_i hEq
      obtain ⟨rfl, hNot⟩ := hEq
      exact absurd hk hNot
    · exact hk
  stays k hk := by
    rw [(setStatus_handles r h k status).2] at hk
    split at hk
    · exact absurd hk hStatus
    · exact hk

theorem ages_detach (r : Registry) (name : DbName) (e : EntryId) : Ages r (r.detach name e) := by
  cases hDb : (r.heap e).db with
  | none =>
    simp only [detach, hDb]
    exact .of_handles rfl rfl
  | some db =>
    simp only [detach, hDb]
    have hErase : Ages r { r with entries := r.entries.erase name } :=
      .of_handles rfl rfl
    exact hErase.trans (ages_setStatus _ db.handle (by decide))

theorem ages_detachIdleLocked {r r' : Registry} {db : Option DB}
    (h : r.detachIdleLocked name = .ok (r', db)) : Ages r r' := by
  unfold detachIdleLocked at h
  split at h
  · cases h
    exact .refl _
  · split at h
    · cases h
    · cases h
      exact ages_detach r name _

theorem ages_reapIdle (r : Registry) (idleTTL now : Time) (order : List DbName) :
    Ages r (r.reapIdle idleTTL now order).1 := by
  suffices h : ∀ (acc : Registry × List DB), Ages r acc.1 →
      Ages r (order.foldl (reapOne idleTTL now) acc).1 from h (r, []) (.refl r)
  induction order with
  | nil => exact fun acc hAcc => hAcc
  | cons name rest ih =>
    intro acc hAcc
    apply ih
    refine hAcc.trans ?_
    unfold reapOne
    split
    · exact .refl _
    · split
      · exact .refl _
      · split
        · exact .refl _
        · exact ages_detach acc.1 name _

theorem ages_getLocked (r : Registry) (name : DbName) :
    Ages r (getLocked r name).1 ∧ ∀ n, (getLocked r name).2 ≠ .reserved n := by
  unfold getLocked
  split
  · exact ⟨.refl _, by simp⟩
  · split
    · exact ⟨.refl _, by simp⟩
    · exact ⟨.of_handles rfl rfl, by simp⟩

theorem ages_getRelocked (r : Registry) (name : DbName) (e : EntryId) :
    Ages r (getRelocked r name e).1 ∧ ∀ n, (getRelocked r name e).2 ≠ .reserved n := by
  unfold getRelocked
  split
  · exact ⟨.refl _, by simp⟩
  · split
    · exact ⟨.refl _, by simp⟩
    · split
      · exact ⟨.refl _, by simp⟩
      · exact ⟨.of_handles rfl rfl, by simp⟩

theorem ages_closeStep (r : Registry) (purpose : CloseFor) (todo : List DB) (stage : CloseStage) :
    Ages r (closeStep r purpose todo stage).1 ∧
      ∀ n, (closeStep r purpose todo stage).2 = .reserved n →
        purpose = .reserve n ∧ todo = [] ∧ (closeStep r purpose todo stage).1 = r := by
  cases todo with
  | nil => cases purpose <;> exact ⟨.refl _, by simp [closeStep, closeDone]⟩
  | cons db rest =>
    cases stage with
    | readHook | fireHook _ => exact ⟨.refl _, by simp [closeStep]⟩
    | enterClose | inClose => exact ⟨ages_setStatus r db.handle (by decide), by simp [closeStep]⟩

theorem ages_reserve {r r' : Registry} {db : Option DB} (h : r.reserve name = .ok (r', db)) :
    Ages r r' := by
  unfold reserve at h
  split at h
  · cases h
  · split at h
    · cases h
    · rename_i hDetach
      cases h
      exact (ages_detachIdleLocked hDetach).trans (.of_handles rfl rfl)

theorem ages_remove {r r' : Registry} {db : Option DB} (h : r.remove name = .ok (r', db)) :
    Ages r r' := by
  unfold remove at h
  split at h
  · cases h
  · split at h
    · cases h
    · rename_i hDetach
      cases h
      exact (ages_detachIdleLocked hDetach).trans (.of_handles rfl rfl)

/-- Apart from a successful open, no step makes or reopens a handle; and only the end
of Reserve's close puts a caller in possession of the reservation. -/
theorem callStep_ages {r r' : Registry} {c c' : Call} {choice : Choice}
    (h : callStep r c choice = some (r', c')) :
    (∃ name e, c = .opening name e ∧ choice = .openOk ∧ r' = r.openHandle name ∧
      c' = .opened name e (.ok r.nextHandle)) ∨
    (Ages r r' ∧ ∀ name, c' = .reserved name →
      choice = .next ∧ r' = r ∧ ∃ stage, c = .closing (.reserve name) [] stage) := by
  unfold callStep at h
  split at h
  case h_1 name =>
    obtain ⟨rfl, rfl⟩ := Prod.ext_iff.mp (Option.some.inj h)
    obtain ⟨hAges, hNot⟩ := ages_getLocked r name
    exact .inr ⟨hAges, fun n hn => absurd hn (hNot n)⟩
  case h_2 name e =>
    cases h
    exact .inl ⟨name, e, rfl, rfl, rfl, rfl⟩
  case h_8 | h_18 => split at h <;> cases h <;> exact .inr ⟨.refl _, by simp⟩
  case h_10 name e =>
    obtain ⟨rfl, rfl⟩ := Prod.ext_iff.mp (Option.some.inj h)
    obtain ⟨hAges, hNot⟩ := ages_getRelocked r name e
    exact .inr ⟨hAges, fun n hn => absurd hn (hNot n)⟩
  case h_14 =>
    split at h
    · cases h
      exact .inr ⟨.refl _, by simp⟩
    · rename_i hReserve
      cases h
      exact .inr ⟨ages_reserve hReserve, by simp⟩
  case h_16 =>
    split at h
    · cases h
      exact .inr ⟨.refl _, by simp⟩
    · rename_i hAdd
      cases h
      unfold add at hAdd
      split at hAdd <;> cases hAdd
      exact .inr ⟨.of_handles rfl rfl, by simp⟩
  case h_17 =>
    split at h
    · cases h
      exact .inr ⟨.refl _, by simp⟩
    · rename_i hRemove
      cases h
      exact .inr ⟨ages_remove hRemove, by simp⟩
  case h_19 idleTTL now order =>
    split at h
    · cases h
      exact .inr ⟨ages_reapIdle r idleTTL now order, by simp⟩
    · cases h
  case h_20 purpose todo stage =>
    obtain ⟨rfl, rfl⟩ := Prod.ext_iff.mp (Option.some.inj h)
    obtain ⟨hAges, hOnly⟩ := ages_closeStep r purpose todo stage
    refine .inr ⟨hAges, fun n hn => ?_⟩
    obtain ⟨rfl, rfl, hSame⟩ := hOnly n hn
    exact ⟨rfl, hSame, stage, rfl⟩
  all_goals
    cases h
    try exact .inr ⟨.of_handles rfl rfl, by simp⟩

theorem step_ages {act : Action} (h : step s act = some t) :
    (∃ i name e, act = .step i .openOk ∧ s.calls[i]? = some (.opening name e) ∧
      t = ⟨s.reg.openHandle name, s.calls.set i (.opened name e (.ok s.reg.nextHandle))⟩) ∨
    (Ages s.reg t.reg ∧ ∀ name, Call.reserved name ∈ t.calls → Call.reserved name ∈ s.calls ∨
      ∃ i stage, act = .step i .next ∧ t.reg = s.reg ∧
        s.calls[i]? = some (.closing (.reserve name) [] stage)) := by
  cases act with
  | call op =>
    cases h
    refine .inr ⟨.refl _, fun name hMem => .inl ?_⟩
    rcases List.mem_append.mp hMem with hMem | hMem
    · exact hMem
    · cases op <;> simp [Op.start] at hMem
  | tick elapsed =>
    cases h
    exact .inr ⟨.of_handles rfl rfl, fun name hMem => .inl hMem⟩
  | step i choice =>
    obtain ⟨c, r, c', hc, hCall, rfl⟩ := step_call h
    rcases callStep_ages hCall with ⟨name, e, rfl, rfl, rfl, rfl⟩ | ⟨hAges, hOnly⟩
    · exact .inl ⟨i, name, e, rfl, hc, rfl⟩
    · refine .inr ⟨hAges, fun name hMem => ?_⟩
      rcases List.mem_or_eq_of_mem_set hMem with hMem | hEq
      · exact .inl hMem
      · obtain ⟨rfl, rfl, stage, rfl⟩ := hOnly name hEq.symm
        exact .inr ⟨i, stage, rfl, rfl, hc⟩

/-! ## Exactly when the promise is kept -/

theorem SingleOwner.step {act : Action} (hInv : Inv s) (hOwner : SingleOwner s)
    (hFirst : ClosesFirst s act) (h : step s act = some t) : SingleOwner t := by
  rcases step_ages h with ⟨i, name, e, rfl, hc, rfl⟩ | ⟨hAges, hReserved⟩
  · have hClosed : ∀ h, h < s.reg.nextHandle → (s.reg.handles h).name = name →
        (s.reg.handles h).status = .closed := by
      intro h hLt hName
      exact hInv.closed_of_not_live hLt (by rw [hName]; exact hFirst name e hc)
        (hInv.not_live_of_opening hc hName)
    have hOld : ∀ {h}, h ≠ s.reg.nextHandle →
        (s.reg.openHandle name).handles h = s.reg.handles h := by
      intro h hNe
      simp [openHandle, Function.update_of_ne hNe]
    have hFresh : (s.reg.openHandle name).handles s.reg.nextHandle = ⟨name, .open⟩ := by
      simp [openHandle]
    have hLt : ∀ {h}, h ≠ s.reg.nextHandle → h < (s.reg.openHandle name).nextHandle →
        h < s.reg.nextHandle := fun hNe hLt => Nat.lt_of_le_of_ne (Nat.lt_succ_iff.mp hLt) hNe
    constructor
    · intro h h' hh hh' hName hOpen hOpen'
      by_cases hNew : h = s.reg.nextHandle <;> by_cases hNew' : h' = s.reg.nextHandle
      · rw [hNew, hNew']
      · dsimp only at hName hOpen'
        rw [hNew, hFresh, hOld hNew'] at hName
        rw [hOld hNew'] at hOpen'
        exact absurd (hClosed h' (hLt hNew' hh') hName.symm) hOpen'
      · dsimp only at hName hOpen
        rw [hNew', hFresh, hOld hNew] at hName
        rw [hOld hNew] at hOpen
        exact absurd (hClosed h (hLt hNew hh) hName) hOpen
      · dsimp only at hName hOpen hOpen'
        rw [hOld hNew, hOld hNew'] at hName
        rw [hOld hNew] at hOpen
        rw [hOld hNew'] at hOpen'
        exact hOwner.unique h h' (hLt hNew hh) (hLt hNew' hh') hName hOpen hOpen'
    · intro n hMem h hh hName
      rcases List.mem_or_eq_of_mem_set hMem with hMem | hEq
      · by_cases hNew : h = s.reg.nextHandle
        · subst hNew
          dsimp only at hName
          rw [hFresh] at hName
          subst hName
          -- A database cannot be reserved while it is being opened.
          have hOpens : Opens s.reg name e := hInv.callOk _ (List.mem_of_getElem? hc)
          obtain ⟨e', hLookup, hRes⟩ : Reserved s.reg name := hInv.callOk _ hMem
          obtain rfl : e = e' := Option.some.inj (hOpens.1.symm.trans hLookup)
          rw [(hInv.opening_shape hOpens).2.2.1] at hRes
          cases hRes
        · dsimp only at hName ⊢
          rw [hOld hNew] at hName ⊢
          exact hOwner.reserved n hMem h (hLt hNew hh) hName
      · cases hEq
  · constructor
    · intro h h' hh hh' hName hOpen hOpen'
      rw [hAges.nextHandle] at hh hh'
      rw [hAges.name, hAges.name] at hName
      exact hOwner.unique h h' hh hh' hName (fun hk => hOpen (hAges.closed h hk))
        (fun hk => hOpen' (hAges.closed h' hk))
    · intro name hMem h hh hName
      rw [hAges.nextHandle] at hh
      rw [hAges.name] at hName
      apply hAges.closed
      rcases hReserved name hMem with hOld | ⟨i, stage, rfl, hSame, hc⟩
      · exact hOwner.reserved name hOld h hh hName
      · have hOk : Reserved s.reg name := (hInv.callOk _ (List.mem_of_getElem? hc)).1
        exact hInv.closed_of_not_live hh (by rw [hName]; exact hFirst name stage hc)
          (hInv.not_live_of_reserved hOk hName)

/-- A step that overtakes a pending close breaks the promise at once. -/
theorem ClosesFirst.of_singleOwner {act : Action} (h : step s act = some t) (hOwner : SingleOwner t) :
    ClosesFirst s act := by
  cases act with
  | call op | tick elapsed => trivial
  | step i choice =>
    cases choice with
    | openOk =>
      rintro name e hc ⟨h', hLt, hName, hStatus⟩
      simp only [step, hc, callStep, Option.some.injEq] at h
      subst h
      have hNe : h' ≠ s.reg.nextHandle := hLt.ne
      refine hNe (hOwner.unique h' s.reg.nextHandle (Nat.lt_succ_of_lt hLt) (Nat.lt_succ_self _) ?_ ?_ ?_)
      · simp [openHandle, Function.update_of_ne hNe, hName]
      · rcases hStatus with hStatus | hStatus <;> simp [openHandle, Function.update_of_ne hNe, hStatus]
      · simp [openHandle]
    | next =>
      rintro name stage hc ⟨h', hLt, hName, hStatus⟩
      simp only [step, hc, callStep, closeStep, closeDone, Option.some.injEq] at h
      subst h
      have hClosed := hOwner.reserved name (mem_set_self hc) h' hLt hName
      rcases hStatus with hStatus | hStatus <;> simp [hStatus] at hClosed
    | _ => trivial

/-- The registry is the single owner of every database in exactly the runs in which
no open and no reservation overtakes the close of a detached handle. -/
theorem single_owner_iff_closes_first (backends : Finmap (fun _ : DbName => Backend))
    (actions : List Action) :
    Always step SingleOwner (init backends) actions ↔ Guarded step ClosesFirst (init backends) actions := by
  constructor
  · exact guarded_of_always (fun _ _ _ hInv h => Inv.step hInv h)
      (fun _ _ _ _ _ h hOwner => ClosesFirst.of_singleOwner h hOwner) (inv_init backends)
  · intro hGuard
    have hInit : SingleOwner (init backends) :=
      ⟨fun h h' hh => by simp [init, new] at hh, fun name hMem => by simp [init] at hMem⟩
    refine (always_of_guarded (I := fun s => Inv s ∧ SingleOwner s) ?_ ⟨inv_init backends, hInit⟩
      hGuard).mono (fun _ h => h.2)
    rintro s act t ⟨hInv, hOwner⟩ hFirst h
    exact ⟨hInv.step h, hOwner.step hInv hFirst h⟩

/-- A database is used and released; the reaper detaches its idle handle, and before the
handle is closed a second Get opens the database again. -/
def reapOvertaken : List Action :=
  [.call (.get "d"), .step 0 .next, .step 0 .openOk, .step 0 .next, .step 0 .next, .step 0 .next,
   .step 0 .release, .tick 5, .call (.reapIdle 1), .step 1 .next, .step 1 (.range ["d"]),
   .call (.get "d"), .step 2 .next, .step 2 .openOk]

theorem reap_overtaken_not_single_owner :
    ¬ Always step SingleOwner (init (Finmap.singleton "d" ⟨"file", false⟩)) reapOvertaken := by
  intro hAlways
  have hRun : (run step (init (Finmap.singleton "d" ⟨"file", false⟩)) reapOvertaken).map
      (fun s => (s.reg.nextHandle, s.reg.handles 0, s.reg.handles 1)) =
      some (2, ⟨"d", .detached⟩, ⟨"d", .open⟩) := by decide
  obtain ⟨s, hs, hEq⟩ := Option.map_eq_some_iff.mp hRun
  obtain ⟨hNext, hOld, hNew⟩ : s.reg.nextHandle = 2 ∧ s.reg.handles 0 = ⟨"d", .detached⟩ ∧
      s.reg.handles 1 = ⟨"d", .open⟩ := by simpa using hEq
  have hSame := (hAlways.final hs).unique 0 1 (by rw [hNext]; decide) (by rw [hNext]; decide)
    (by rw [hOld, hNew]) (by rw [hOld]; decide) (by rw [hNew]; decide)
  cases hSame

end QuicSql.Registry
